import ProtoHeader.Proofs.CanonicalLines
import ProtoHeader.Proofs.LegalNames
import ProtoHeader.Proofs.WrittenStatements

/-!
# Options of fields

What stands in brackets between the tag of a field and its semicolon is passed over up to the first
closing bracket, and literals are not told apart from the rest.  So a list of options changes
nothing as long as no literal in it has a closing bracket, or none but one right before a
semicolon; with any other one the line is no field at all.
-/

namespace ProtoHeader

open Text Source

namespace Grammar

/-! ## Scanning up to a mark -/

theorem takeWhile_append_cons {p : Char → Bool} {x : Char} (hx : p x = false) (d r : List Char) :
    (d ++ x :: r).takeWhile p = d.takeWhile p := by
  induction d with
  | nil => simp [hx]
  | cons c d ih => by_cases hc : p c = true <;> simp [hc, ih]

theorem dropWhile_append_cons {p : Char → Bool} {x : Char} (hx : p x = false) (d r : List Char) :
    (d ++ x :: r).dropWhile p = d.dropWhile p ++ x :: r := by
  induction d with
  | nil => simp [hx]
  | cons c d ih => by_cases hc : p c = true <;> simp [hc, ih]

/-- The character ends a field or opens its options, and no scanner goes past it. -/
def IsFieldMark (x : Char) : Prop :=
  x = '[' ∨ x = ';'

instance (x : Char) : Decidable (IsFieldMark x) :=
  inferInstanceAs (Decidable (_ ∨ _))

section Marks

variable {x : Char} (hx : IsFieldMark x) (d r : List Char)
include hx

theorem IsFieldMark.skipBlanks_append : skipBlanks (d ++ x :: r) = skipBlanks d ++ x :: r := by
  apply dropWhile_append_cons
  rcases hx with rfl | rfl <;> decide

theorem IsFieldMark.afterBlanks?_append :
    afterBlanks? (d ++ x :: r) = (afterBlanks? d).map (· ++ x :: r) := by
  have hblank : isBlank x = false := by rcases hx with rfl | rfl <;> decide
  cases d with
  | nil => simp [afterBlanks?, hblank]
  | cons c d => by_cases hc : isBlank c = true <;> simp [afterBlanks?, hc, hx.skipBlanks_append]

theorem IsFieldMark.name?_append :
    name? (d ++ x :: r) = (name? d).map (Prod.map id (· ++ x :: r)) := by
  have hstart : isNameStart x = false := by rcases hx with rfl | rfl <;> decide
  have hword : isWordChar x = false := by rcases hx with rfl | rfl <;> decide
  cases d with
  | nil => simp [name?, hstart]
  | cons c d =>
      by_cases hc : isNameStart c = true <;>
        simp [name?, hc, takeWhile_append_cons hword, dropWhile_append_cons hword]

theorem IsFieldMark.afterEquals?_append :
    afterChar? '=' (d ++ x :: r) = (afterChar? '=' d).map (· ++ x :: r) := by
  have hne : x ≠ '=' := by rcases hx with rfl | rfl <;> decide
  rw [afterChar?, hx.skipBlanks_append, afterChar?]
  cases skipBlanks d with
  | nil => simp [hne]
  | cons c rest => by_cases hc : c = '=' <;> simp [hc]

theorem IsFieldMark.after?_append (label : Label) :
    after? label.word.toList (d ++ x :: r) = (after? label.word.toList d).map (· ++ x :: r) := by
  have hword : x ∉ label.word.toList := by
    rcases hx with rfl | rfl <;> cases label <;> decide
  generalize label.word.toList = word at hword
  induction word generalizing d with
  | nil => rfl
  | cons w ws ih =>
      rw [List.mem_cons, not_or] at hword
      cases d with
      | nil => simp [after?, Ne.symm hword.1]
      | cons c d => by_cases hc : w = c <;> simp [after?, hc, ih d hword.2]

end Marks

/-! ## Fields up to their tag -/

/-- The parts of a field without a label, and what follows its tag and blanks. -/
def fieldHead? (label : Option Label) (cs : List Char) : Option (FieldParts × List Char) := do
  let typeName := cs.takeWhile isReferenceChar
  guard (isReference typeName)
  let cs ← afterBlanks? (cs.dropWhile isReferenceChar)
  let (name, cs) ← name? cs
  let cs ← afterChar? '=' cs
  let digits := (skipBlanks cs).takeWhile isDecimalDigit
  guard !digits.isEmpty
  return (⟨label, typeName, name, digits⟩, skipBlanks ((skipBlanks cs).dropWhile isDecimalDigit))

/-- What follows a field of which the tag has been read: perhaps options, and a semicolon. -/
def afterField? (cs : List Char) : Option (List Char) :=
  (afterOptions? cs).bind (afterChar? ';')

theorem unlabelled?_eq_bind (label : Option Label) (cs : List Char) :
    unlabelled? label cs =
      (fieldHead? label cs).bind fun head ↦ (afterField? head.2).bind fun _ ↦ some head.1 := by
  simp only [unlabelled?, fieldHead?, afterField?, Option.bind_eq_bind, Option.bind_assoc,
    Option.pure_def, Option.bind_some]

theorem IsFieldMark.fieldHead?_append {x : Char} (hx : IsFieldMark x) (label : Option Label)
    (d r : List Char) :
    fieldHead? label (d ++ x :: r) = (fieldHead? label d).map (Prod.map id (· ++ x :: r)) := by
  have hreference : isReferenceChar x = false := by rcases hx with rfl | rfl <;> decide
  have hdigit : isDecimalDigit x = false := by rcases hx with rfl | rfl <;> decide
  simp only [fieldHead?, takeWhile_append_cons hreference, dropWhile_append_cons hreference,
    hx.afterBlanks?_append, Option.bind_eq_bind, Option.bind_map, Option.map_bind,
    Function.comp_def, hx.name?_append, hx.afterEquals?_append, hx.skipBlanks_append,
    takeWhile_append_cons hdigit, dropWhile_append_cons hdigit, Prod.map_fst, Prod.map_snd,
    Option.pure_def, Option.map_some, id_eq, Prod.map_apply]

/-- A character of which the text of a field up to its tag is made. -/
def IsFieldChar (c : Char) : Prop :=
  isReferenceChar c = true ∨ isBlank c = true ∨ isDecimalDigit c = true ∨ c = '='

theorem exists_skipBlanks_eq (cs : List Char) :
    ∃ blanks, cs = blanks ++ skipBlanks cs ∧ ∀ c ∈ blanks, isBlank c = true :=
  ⟨cs.takeWhile isBlank, List.takeWhile_append_dropWhile.symm,
    List.all_eq_true.mp List.all_takeWhile⟩

theorem exists_of_afterBlanks? {cs rest : List Char} (h : afterBlanks? cs = some rest) :
    ∃ blanks, cs = blanks ++ rest ∧ ∀ c ∈ blanks, isBlank c = true := by
  cases cs with
  | nil => simp [afterBlanks?] at h
  | cons c cs =>
      simp only [afterBlanks?, Option.ite_none_right_eq_some, Option.some.injEq] at h
      obtain ⟨hc, rfl⟩ := h
      obtain ⟨blanks, hcs, hblanks⟩ := exists_skipBlanks_eq cs
      exact ⟨c :: blanks, congrArg (c :: ·) hcs, by simpa [hc] using hblanks⟩

theorem exists_of_afterChar? {mark : Char} {cs rest : List Char}
    (h : afterChar? mark cs = some rest) :
    ∃ blanks, cs = blanks ++ mark :: rest ∧ ∀ c ∈ blanks, isBlank c = true := by
  obtain ⟨blanks, hcs, hblanks⟩ := exists_skipBlanks_eq cs
  unfold afterChar? at h
  split at h
  · contradiction
  · next c tail hskip =>
      simp only [Option.ite_none_right_eq_some, Option.some.injEq] at h
      obtain ⟨rfl, rfl⟩ := h
      exact ⟨blanks, by rw [← hskip]; exact hcs, hblanks⟩

/-- A reference starts with a dot or with the first character of a name. -/
theorem exists_cons_of_isReference {cs : List Char} (h : isReference cs = true) :
    ∃ c rest, cs = c :: rest ∧ isBlank c = false := by
  cases cs with
  | nil => simp [isReference] at h
  | cons c rest =>
      refine ⟨c, rest, rfl, ?_⟩
      by_cases hdot : c = '.'
      · subst hdot
        decide
      · cases hsplit : rest.splitOn '.' with
        | nil => exact absurd hsplit (List.splitOn_ne_nil '.' rest)
        | cons first more =>
            simp only [isReference, List.splitOn_cons_eq_if_modifyHead, hdot, beq_iff_eq, if_false,
              hsplit, List.modifyHead_cons, List.all_cons, Bool.and_eq_true, isName] at h
            exact isBlank_of_word (word_of_isNameStart h.1.1)

/-- The text of a field up to its tag is made of field characters.  It does not start with a blank,
and no blank follows it. -/
theorem exists_of_fieldHead? {label : Option Label} {cs rest : List Char} {parts : FieldParts}
    (h : fieldHead? label cs = some (parts, rest)) :
    ∃ text, cs = text ++ rest ∧ (∀ c ∈ text, IsFieldChar c) ∧
      (∃ c tail, text = c :: tail ∧ isBlank c = false) ∧ rest.head?.any isBlank = false := by
  simp only [fieldHead?, Option.bind_eq_bind, Option.bind_eq_some_iff, Option.pure_def,
    Option.some.injEq, Prod.mk.injEq] at h
  obtain ⟨_, hguard, cs₁, hblanks, ⟨name, cs₂⟩, hname, cs₃, hequals, -, -, -, rfl⟩ := h
  obtain ⟨gap₁, hcs₁, hgap₁⟩ := exists_of_afterBlanks? hblanks
  obtain ⟨gap₂, (hcs₂ : cs₂ = gap₂ ++ '=' :: cs₃), hgap₂⟩ := exists_of_afterChar? hequals
  obtain ⟨gap₃, hcs₃, hgap₃⟩ := exists_skipBlanks_eq cs₃
  obtain ⟨gap₄, hcs₄, hgap₄⟩ := exists_skipBlanks_eq ((skipBlanks cs₃).dropWhile isDecimalDigit)
  have hreference : isReference (cs.takeWhile isReferenceChar) = true := by
    simpa [Option.guard_eq_some'] using hguard
  obtain ⟨c, tail, htype, hc⟩ := exists_cons_of_isReference hreference
  refine ⟨cs.takeWhile isReferenceChar ++ (gap₁ ++ (name ++ (gap₂ ++ '=' :: (gap₃ ++
    ((skipBlanks cs₃).takeWhile isDecimalDigit ++ gap₄))))), ?_, ?_, ?_, any_head?_skipBlanks _⟩
  · calc
      cs = cs.takeWhile isReferenceChar ++ cs.dropWhile isReferenceChar :=
        List.takeWhile_append_dropWhile.symm
      _ = cs.takeWhile isReferenceChar ++ (gap₁ ++ (name ++ (gap₂ ++ '=' :: cs₃))) := by
        rw [hcs₁, ← append_of_name? hname, hcs₂]
      _ = cs.takeWhile isReferenceChar ++ (gap₁ ++ (name ++ (gap₂ ++ '=' :: (gap₃ ++
            ((skipBlanks cs₃).takeWhile isDecimalDigit ++
              (skipBlanks cs₃).dropWhile isDecimalDigit))))) := by
        rw [List.takeWhile_append_dropWhile, ← hcs₃]
      _ = _ := by
        nth_rewrite 1 [hcs₄]
        simp only [List.append_assoc, List.cons_append]
  · have hname' : ∀ c ∈ name, IsFieldChar c := fun c hc ↦ .inl (by
      simp [isReferenceChar, Header.isWordChar_of_mem_of_isName (isName_of_name? hname) hc])
    have hblank {gap : List Char} (hgap : ∀ c ∈ gap, isBlank c = true) : ∀ c ∈ gap, IsFieldChar c :=
      fun c hc ↦ .inr (.inl (hgap c hc))
    have htype' : ∀ c ∈ cs.takeWhile isReferenceChar, IsFieldChar c :=
      fun c hc ↦ .inl (List.all_eq_true.mp List.all_takeWhile c hc)
    have hdigits : ∀ c ∈ (skipBlanks cs₃).takeWhile isDecimalDigit, IsFieldChar c :=
      fun c hc ↦ .inr (.inr (.inl (List.all_eq_true.mp List.all_takeWhile c hc)))
    simp only [List.forall_mem_append, List.forall_mem_cons]
    exact ⟨htype', hblank hgap₁, hname', hblank hgap₂, .inr (.inr (.inr rfl)), hblank hgap₃,
      hdigits, hblank hgap₄⟩
  · exact ⟨c, _, by rw [htype]; rfl, hc⟩

/-! ## Fields up to a mark -/

theorem afterField?_semicolon (r : List Char) : afterField? (';' :: r) = some r := by
  have hoptions : afterOptions? (';' :: r) = some (';' :: r) := rfl
  rw [afterField?, hoptions, Option.bind_some, afterChar?, skipBlanks_semicolon]
  exact if_pos rfl

/-- A field whose tag is followed by anything but options and a semicolon is none. -/
theorem afterField?_append {rest : List Char} (hrest : ∀ c ∈ rest, ¬ IsFieldMark c)
    (hblank : rest.head?.any isBlank = false) (hne : rest ≠ []) (cs : List Char) :
    afterField? (rest ++ cs) = none := by
  obtain ⟨c, rest, rfl⟩ := List.exists_cons_of_ne_nil hne
  have hc := hrest c List.mem_cons_self
  rw [IsFieldMark, not_or] at hc
  have hoptions : afterOptions? (c :: (rest ++ cs)) = some (c :: (rest ++ cs)) := by
    unfold afterOptions?
    split
    · next heq => exact absurd (List.cons.inj heq).1 hc.1
    · rfl
  rw [List.cons_append, afterField?, hoptions, Option.bind_some, afterChar?,
    skipBlanks_cons_of_false (by simpa using hblank)]
  exact if_neg hc.2

theorem unlabelled?_append (label : Option Label) {d : List Char}
    (hd : ∀ c ∈ d, ¬ IsFieldMark c) {x : Char} (hx : IsFieldMark x) (r : List Char) :
    unlabelled? label (d ++ x :: r) =
      (afterField? (x :: r)).bind fun _ ↦ unlabelled? label (d ++ [';']) := by
  rw [unlabelled?_eq_bind, unlabelled?_eq_bind, hx.fieldHead?_append,
    IsFieldMark.fieldHead?_append (.inr rfl)]
  cases hhead : fieldHead? label d with
  | none => cases afterField? (x :: r) <;> rfl
  | some head =>
      obtain ⟨parts, rest⟩ := head
      obtain ⟨text, rfl, -, -, hblank⟩ := exists_of_fieldHead? hhead
      have hrest : ∀ c ∈ rest, ¬ IsFieldMark c := fun c hc ↦ hd c (List.mem_append_right text hc)
      by_cases hne : rest = []
      · subst hne
        simp [afterField?_semicolon]
      · simp [afterField?_append hrest hblank hne]

theorem labelled?_append (label : Label) {d : List Char}
    (hd : ∀ c ∈ d, ¬ IsFieldMark c) {x : Char} (hx : IsFieldMark x) (r : List Char) :
    labelled? label (d ++ x :: r) =
      (afterField? (x :: r)).bind fun _ ↦ labelled? label (d ++ [';']) := by
  have hsemicolon : IsFieldMark ';' := .inr rfl
  simp only [labelled?, hx.after?_append, hsemicolon.after?_append, Option.bind_eq_bind,
    Option.bind_map, Function.comp_def, hx.afterBlanks?_append, hsemicolon.afterBlanks?_append]
  cases hafter : after? label.word.toList d with
  | none => cases afterField? (x :: r) <;> rfl
  | some d₁ =>
      cases hblanks : afterBlanks? d₁ with
      | none => cases afterField? (x :: r) <;> simp [hblanks]
      | some d₂ =>
          have hmem : ∀ c ∈ d₂, ¬ IsFieldMark c := by
            intro c hc
            apply hd
            rw [after?_eq_some_iff.mp hafter]
            exact List.mem_append_right _ (mem_of_afterBlanks? hblanks hc)
          simp only [Option.bind_some, hblanks]
          exact unlabelled?_append (some label) hmem hx r

/-- A field is read up to its tag alike whether options or a semicolon follow. -/
theorem fieldParts?_append {d : List Char} (hd : ∀ c ∈ d, ¬ IsFieldMark c) {x : Char}
    (hx : IsFieldMark x) (r : List Char) :
    fieldParts? (d ++ x :: r) = (afterField? (x :: r)).bind fun _ ↦ fieldParts? (d ++ [';']) := by
  rw [fieldParts?, labelled?_append _ hd hx, labelled?_append _ hd hx, unlabelled?_append _ hd hx]
  cases afterField? (x :: r) <;> rfl

/-! ## The text of a field -/

theorem text_of_unlabelled? {label : Option Label} {d : List Char}
    (hd : ∀ c ∈ d, ¬ IsFieldMark c) (h : unlabelled? label (d ++ [';']) ≠ none) :
    (∀ c ∈ d, IsFieldChar c) ∧ ∃ c tail, d = c :: tail ∧ isBlank c = false := by
  rw [unlabelled?_eq_bind, IsFieldMark.fieldHead?_append (.inr rfl)] at h
  cases hhead : fieldHead? label d with
  | none => simp [hhead] at h
  | some head =>
      obtain ⟨parts, rest⟩ := head
      obtain ⟨text, rfl, htext, hfirst, hblank⟩ := exists_of_fieldHead? hhead
      have hrest : ∀ c ∈ rest, ¬ IsFieldMark c := fun c hc ↦ hd c (List.mem_append_right text hc)
      obtain rfl : rest = [] := by
        by_contra hne
        simp [hhead, afterField?_append hrest hblank hne] at h
      rw [List.append_nil]
      exact ⟨htext, hfirst⟩

theorem Label.isReferenceChar_word (label : Label) :
    ∀ c ∈ label.word.toList, isReferenceChar c = true := by
  cases label <;> exact forall_mem_of_all (by decide)

theorem text_of_labelled? {label : Label} {d : List Char} (hd : ∀ c ∈ d, ¬ IsFieldMark c)
    (h : labelled? label (d ++ [';']) ≠ none) :
    (∀ c ∈ d, IsFieldChar c) ∧ ∃ c tail, d = c :: tail ∧ isBlank c = false := by
  have hsemicolon : IsFieldMark ';' := .inr rfl
  simp only [labelled?, hsemicolon.after?_append, Option.bind_eq_bind, Option.bind_map,
    Function.comp_def, hsemicolon.afterBlanks?_append] at h
  cases hafter : after? label.word.toList d with
  | none => simp [hafter] at h
  | some d₁ =>
      cases hblanks : afterBlanks? d₁ with
      | none => simp [hafter, hblanks] at h
      | some d₂ =>
          obtain rfl := after?_eq_some_iff.mp hafter
          obtain ⟨gap, rfl, hgap⟩ := exists_of_afterBlanks? hblanks
          simp only [hafter, hblanks, Option.bind_some] at h
          simp only [List.forall_mem_append] at hd ⊢
          obtain ⟨hbody, -⟩ := text_of_unlabelled? hd.2.2 h
          refine ⟨⟨fun c hc ↦ .inl (label.isReferenceChar_word c hc),
            fun c hc ↦ .inr (.inl (hgap c hc)), hbody⟩, ?_⟩
          obtain ⟨c, word, hword⟩ : ∃ c word, label.word.toList = c :: word := by
            cases label <;> exact ⟨_, _, rfl⟩
          exact ⟨c, _, by rw [hword]; rfl, label.word_not_blank c (by simp [hword])⟩

/-- The text of a field up to its tag is made of field characters and does not start with a
blank. -/
theorem text_of_fieldParts? {d : List Char} (hd : ∀ c ∈ d, ¬ IsFieldMark c)
    (h : fieldParts? (d ++ [';']) ≠ none) :
    (∀ c ∈ d, IsFieldChar c) ∧ ∃ c tail, d = c :: tail ∧ isBlank c = false := by
  by_cases hrepeated : labelled? .repeated (d ++ [';']) = none
  · by_cases hoptional : labelled? .optional (d ++ [';']) = none
    · have hbare : unlabelled? none (d ++ [';']) ≠ none := by
        simpa [fieldParts?, hrepeated, hoptional] using h
      exact text_of_unlabelled? hd hbare
    · exact text_of_labelled? hd hoptional
  · exact text_of_labelled? hd hrepeated

theorem isOrdinary_of_isFieldChar {c : Char} (hc : IsFieldChar c) (hbreak : c ≠ '\n') :
    IsOrdinary c := by
  have hspecial : ∀ d ∈ ['/', '"', '\'', '}', ';', '{'],
      isReferenceChar d = false ∧ isBlank d = false ∧ isDecimalDigit d = false ∧ d ≠ '=' :=
    forall_mem_of_all (by decide)
  intro hmem
  rcases List.mem_cons.mp hmem with hc' | hmem
  · exact hbreak hc'
  · obtain ⟨hreference, hblank, hdigit, hequals⟩ := hspecial c hmem
    rcases hc with hc | hc | hc | hc
    · exact Bool.false_ne_true (hreference.symm.trans hc)
    · exact Bool.false_ne_true (hblank.symm.trans hc)
    · exact Bool.false_ne_true (hdigit.symm.trans hc)
    · exact hequals hc

end Grammar

/-! ## Texts of options -/

namespace Source

open Reader

theorem flowing_of_isOrdinary {t : List Char} (h : ∀ c ∈ t, IsOrdinary c) :
    Flowing t ∧ readerAfter t = code := by
  induction t using List.reverseRecOn with
  | nil => exact ⟨flowing_nil, rfl⟩
  | append_singleton t c ih =>
      obtain ⟨hflowing, hreader⟩ := ih fun d hd ↦ h d (List.mem_append_left [c] hd)
      have hc := h c (by simp)
      simp only [IsOrdinary, List.mem_cons, List.not_mem_nil, or_false, not_or] at hc
      constructor
      · rw [flowing_concat, hreader]
        refine ⟨hflowing, fun _ ↦ ⟨hc.2.2.2.2.1, hc.2.2.2.2.2⟩, ?_⟩
        intro hslash
        cases hslash
      · rw [readerAfter_append, hreader]
        simp [next, Reader.afterCode, hc]

theorem readerAfter_append_of_code {t : List Char} (ht : readerAfter t = code) (u : List Char) :
    readerAfter (t ++ u) = readerAfter u := by
  rw [readerAfter_append, ht]
  rfl

theorem Flowing.append {t u : List Char} (ht : Flowing t) (hreader : readerAfter t = code)
    (hu : Flowing u) : Flowing (t ++ u) := by
  induction u using List.reverseRecOn with
  | nil => rwa [List.append_nil]
  | append_singleton u c ih =>
      obtain ⟨hinit, hc⟩ := flowing_concat.mp hu
      rw [← List.append_assoc, flowing_concat, readerAfter_append_of_code hreader]
      exact ⟨ih hinit, hc⟩

theorem Flowing.isStatement {c : Char} {cs : List Char} (h : Flowing (c :: cs))
    (hbreak : '\n' ∉ c :: cs) (houtside : Outside (c :: cs)) (hc : isBlank c = false) :
    IsStatement (c :: cs ++ [';']) := by
  apply isStatement_of_marks hc (by decide)
  intro rest
  rw [marks_code_eq_run, ← List.cons_append, h.run_append_stop hbreak houtside (.inl rfl),
    ← marks_code_eq_run]

/-- A text between brackets: it stays on its line and closes its literals, and outside of them it
has neither brackets, braces or semicolons nor comments. -/
structure IsOptionText (body : List Char) : Prop where
  unbroken : '\n' ∉ body
  closed : Outside body
  unmarked : ∀ cs ∈ [['['], [']']] ++ (interrupts ++ stops), ¬ Exposed cs body

theorem IsOptionText.flowing {body : List Char} (h : IsOptionText body) : Flowing body :=
  fun cs hcs ↦ h.unmarked cs (List.mem_append_right _ hcs)

theorem next_closeBracket {r : Reader} (h : r.outside = true) : next r ']' = code := by
  cases r with
  | code | slash => rfl
  | literal _ | escape _ | lineComment | blockComment | star => cases h

theorem readerAfter_closeBracket {t : List Char} (h : Outside t) :
    readerAfter (t ++ [']']) = code := by
  rw [readerAfter_append]
  exact next_closeBracket h

theorem Flowing.closeBracket {t : List Char} (h : Flowing t) : Flowing (t ++ [']']) :=
  flowing_concat.mpr ⟨h, fun _ ↦ by decide, fun _ ↦ by decide⟩

end Source

/-! ## Fields with options -/

namespace Grammar

open Reader

/-- The text of a field up to its tag, on one line. -/
structure IsFieldText (decl : List Char) : Prop where
  unbroken : '\n' ∉ decl
  unmarked : ∀ c ∈ decl, ¬ IsFieldMark c
  accepted : fieldParts? (decl ++ [';']) ≠ none

/-- A field with options after its tag. -/
def withOptions (decl body gap : List Char) : List Char :=
  decl ++ '[' :: (body ++ ']' :: (gap ++ [';']))

/-- The first closing bracket of a text, if there is one, stands before a semicolon. -/
def BracketBeforeSemicolon (body : List Char) : Prop :=
  ∀ before after, body = before ++ ']' :: after → ']' ∉ before →
    (skipBlanks after).head? = some ';'

theorem decide_ne_bracket {before : List Char} (h : ']' ∉ before) :
    ∀ c ∈ before, decide (c ≠ ']') = true :=
  fun _ hc ↦ decide_eq_true (ne_of_mem_of_not_mem hc h)

theorem afterOptions?_bracket {before : List Char} (h : ']' ∉ before) (rest : List Char) :
    afterOptions? ('[' :: (before ++ ']' :: rest)) = some rest := by
  rw [afterOptions?, dropWhile_append_stop (decide_ne_bracket h) (by simp)]

theorem isSome_afterField?_iff {gap : List Char} (hgap : ∀ c ∈ gap, isBlank c = true)
    (body : List Char) :
    (afterField? ('[' :: (body ++ ']' :: (gap ++ [';'])))).isSome = true ↔
      BracketBeforeSemicolon body := by
  by_cases hmem : ']' ∈ body
  · -- the options are taken to end in the middle of the text
    obtain ⟨before, after, rfl, hbefore⟩ := List.eq_append_cons_of_mem hmem
    have honly : BracketBeforeSemicolon (before ++ ']' :: after) ↔
        (skipBlanks after).head? = some ';' := by
      constructor
      · intro h
        exact h before after rfl hbefore
      · intro h first second heq hfirst
        have hsame := congrArg (List.takeWhile (fun c ↦ decide (c ≠ ']'))) heq
        rw [takeWhile_append_stop (decide_ne_bracket hbefore) (by simp),
          takeWhile_append_stop (decide_ne_bracket hfirst) (by simp)] at hsame
        subst hsame
        obtain ⟨-, rfl⟩ := List.cons.inj (List.append_cancel_left heq)
        exact h
    have hskip : skipBlanks (after ++ ']' :: (gap ++ [';'])) =
        skipBlanks after ++ ']' :: (gap ++ [';']) :=
      dropWhile_append_cons (by decide) after _
    rw [honly, afterField?, List.append_assoc, List.cons_append, afterOptions?_bracket hbefore,
      Option.bind_some, afterChar?, hskip]
    cases skipBlanks after with
    | nil => simp
    | cons c rest => by_cases hc : c = ';' <;> simp [hc]
  · have hharmless : BracketBeforeSemicolon body := by
      rintro before after rfl -
      simp at hmem
    have hskip : skipBlanks (gap ++ [';']) = [';'] := by
      rw [skipBlanks, List.dropWhile_append_of_pos hgap]
      exact skipBlanks_semicolon []
    simp [hharmless, afterField?, afterOptions?_bracket hmem, afterChar?, hskip]

theorem IsFieldText.fieldOfLine?_withOptions {decl body gap : List Char} (hdecl : IsFieldText decl)
    (hgap : ∀ c ∈ gap, isBlank c = true) (n : ℕ) :
    (BracketBeforeSemicolon body →
      Field.ofLine? ⟨String.ofList (withOptions decl body gap), n⟩ =
        Field.ofLine? ⟨String.ofList (decl ++ [';']), n⟩) ∧
    (¬ BracketBeforeSemicolon body →
      Field.ofLine? ⟨String.ofList (withOptions decl body gap), n⟩ = .ok none) := by
  have hparts := fieldParts?_append hdecl.unmarked (.inl rfl) (body ++ ']' :: (gap ++ [';']))
  rw [← isSome_afterField?_iff hgap body]
  simp only [Field.ofLine?, String.toList_ofList, withOptions, hparts]
  constructor
  · intro h
    obtain ⟨rest, hrest⟩ := Option.isSome_iff_exists.mp h
    rw [hrest, Option.bind_some]
  · intro h
    rw [Option.not_isSome_iff_eq_none.mp h, Option.bind_none]

theorem IsFieldText.flowing {decl : List Char} (hdecl : IsFieldText decl) :
    Flowing decl ∧ readerAfter decl = code := by
  obtain ⟨hchars, -⟩ := text_of_fieldParts? hdecl.unmarked hdecl.accepted
  apply flowing_of_isOrdinary
  intro c hc
  exact isOrdinary_of_isFieldChar (hchars c hc) (ne_of_mem_of_not_mem hc hdecl.unbroken)

theorem IsFieldText.isStatement_append {decl : List Char} (hdecl : IsFieldText decl)
    {more : List Char} (hmore : Flowing more) (hbreak : '\n' ∉ more) (houtside : Outside more) :
    IsStatement (decl ++ more ++ [';']) := by
  obtain ⟨hflowing, hreader⟩ := hdecl.flowing
  obtain ⟨-, c, cs, rfl, hc⟩ := text_of_fieldParts? hdecl.unmarked hdecl.accepted
  have hunbroken : '\n' ∉ c :: cs ++ more :=
    fun hmem ↦ (List.mem_append.mp hmem).elim hdecl.unbroken hbreak
  have hend : Outside (c :: cs ++ more) := by
    rw [Outside, readerAfter_append_of_code hreader]
    exact houtside
  exact (hflowing.append hreader hmore).isStatement hunbroken hend hc

theorem IsFieldText.isStatement_withOptions {decl body gap : List Char} (hdecl : IsFieldText decl)
    (hbody : IsOptionText body) (hgap : ∀ c ∈ gap, isBlank c = true ∧ c ≠ '\n') :
    IsStatement (withOptions decl body gap) := by
  obtain ⟨hopen, hcode⟩ : Flowing ['['] ∧ readerAfter ['['] = code :=
    flowing_of_isOrdinary (by simp [IsOrdinary])
  obtain ⟨hblanks, hend⟩ : Flowing gap ∧ readerAfter gap = code :=
    flowing_of_isOrdinary fun c hc ↦ isOrdinary_of_isBlank (hgap c hc).1 (hgap c hc).2
  have hclose := readerAfter_closeBracket hbody.closed
  have hinner := hbody.flowing.closeBracket.append hclose hblanks
  have houtside : Outside (['['] ++ (body ++ [']'] ++ gap)) := by
    rw [Outside, readerAfter_append_of_code hcode, readerAfter_append_of_code hclose, hend]
    rfl
  have hbreak : '\n' ∉ ['['] ++ (body ++ [']'] ++ gap) := by
    have hgap' : '\n' ∉ gap := fun hmem ↦ (hgap _ hmem).2 rfl
    simp [hbody.unbroken, hgap']
  have hstatement := hdecl.isStatement_append (hopen.append hcode hinner) hbreak houtside
  simpa [withOptions] using hstatement

/-- A field with options, in whatever blanks and statements it stands, is one line like the field
without them, and is read as the same field or refused for the same tag, exactly if the first
closing bracket in the options, which can only be part of a literal, stands before a semicolon.
Otherwise the line is read as no field. -/
theorem options_keep_field_iff {decl body gap : List Char} (hdecl : IsFieldText decl)
    (hbody : IsOptionText body) (hgap : ∀ c ∈ gap, isBlank c = true ∧ c ≠ '\n') :
    IsStatement (decl ++ [';']) ∧ IsStatement (withOptions decl body gap) ∧
    ∀ n,
      (Field.ofLine? ⟨String.ofList (withOptions decl body gap), n⟩ =
          Field.ofLine? ⟨String.ofList (decl ++ [';']), n⟩ ↔ BracketBeforeSemicolon body) ∧
      (¬ BracketBeforeSemicolon body →
        Field.ofLine? ⟨String.ofList (withOptions decl body gap), n⟩ = .ok none) := by
  have hplain : IsStatement (decl ++ [] ++ [';']) :=
    hdecl.isStatement_append flowing_nil List.not_mem_nil rfl
  rw [List.append_nil] at hplain
  refine ⟨hplain, hdecl.isStatement_withOptions hbody hgap, fun n ↦ ?_⟩
  obtain ⟨hsame, hnone⟩ := hdecl.fieldOfLine?_withOptions (fun c hc ↦ (hgap c hc).1) n
  refine ⟨⟨fun heq ↦ ?_, hsame⟩, hnone⟩
  by_contra hbracket
  have hfield : Field.ofLine? ⟨String.ofList (decl ++ [';']), n⟩ ≠ .ok none := by
    obtain ⟨parts, hparts⟩ := Option.ne_none_iff_exists'.mp hdecl.accepted
    simp only [Field.ofLine?, String.toList_ofList, hparts]
    cases tag? parts.digits <;> simp
  exact hfield (heq.symm.trans (hnone hbracket))

theorem options_keep_field_iff_bracketLiteral :
    IsFieldText "string s = 1 ".toList ∧ IsOptionText "default = \"]\"".toList ∧
      Field.ofLine? ⟨"string s = 1 ;", 3⟩ = .ok (some (.declare "string" "s" 1 false 3)) ∧
      Field.ofLine? ⟨"string s = 1 [default = \"]\"];", 3⟩ = .ok none := by
  have hdecl : IsFieldText "string s = 1 ".toList :=
    ⟨by decide +kernel, forall_mem_of_all (by decide +kernel), by decide +kernel⟩
  have hbody : IsOptionText "default = \"]\"".toList :=
    ⟨by decide +kernel, by decide +kernel, by decide +kernel⟩
  have hgap : ∀ c ∈ ([] : List Char), isBlank c = true ∧ c ≠ '\n' := by simp
  obtain ⟨-, -, hread⟩ := options_keep_field_iff hdecl hbody hgap
  refine ⟨hdecl, hbody, by decide +kernel, (hread 3).2 ?_⟩
  intro hbracket
  have hquote := hbracket "default = \"".toList "\"".toList (by decide +kernel) (by decide +kernel)
  exact absurd hquote (by decide +kernel)

end Grammar

end ProtoHeader

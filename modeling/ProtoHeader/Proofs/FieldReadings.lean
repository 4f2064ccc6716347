import ProtoHeader.Proofs.FieldOptions
import ProtoHeader.Proofs.Numerals
import ProtoHeader.Proofs.Respacing
import ProtoHeader.Proofs.WrittenStatements

/-!
# Readings of a field line

A field line is cut into a label, a type, a name and a tag in at most one way.  Every part ends at a
character that cannot belong to it, so that there is no choice where to stop; and a word such as
`optional` is a label exactly if a type and a name stand between it and the equals sign, since a
type and an equals sign have only one name between them.  So the order in which the grammar tries
its alternatives does not matter.
-/

namespace ProtoHeader

open Text

namespace Grammar

/-! ## Texts of the parts -/

/-- Any number of blanks, perhaps none. -/
def Blanks (gap : List Char) : Prop :=
  ∀ c ∈ gap, isBlank c = true

/-- Names with dots between them, and perhaps one dot in front. -/
inductive TypeText : List Char → Prop
  | relative {names : List (List Char)} (ne_nil : names ≠ [])
      (named : ∀ name ∈ names, isName name = true) : TypeText (['.'].intercalate names)
  | absolute {names : List (List Char)} (ne_nil : names ≠ [])
      (named : ∀ name ∈ names, isName name = true) : TypeText ('.' :: ['.'].intercalate names)

inductive LabelText : Option Label → List Char → Prop
  | absent : LabelText none []
  | present (label : Label) {gap : List Char} (blanks : IsGap gap) :
      LabelText (some label) (label.word.toList ++ gap)

/-- A type, a name and an equals sign, with the given text after it. -/
inductive HeadText (typeName name : List Char) : List Char → List Char → Prop
  | mk {gap gap' : List Char} (type : TypeText typeName) (between : IsGap gap)
      (named : isName name = true) (blanks : Blanks gap') (after : List Char) :
      HeadText typeName name (typeName ++ (gap ++ (name ++ (gap' ++ '=' :: after)))) after

/-- The end of a field: perhaps options, and a semicolon.  What follows it does not count. -/
inductive EndText : List Char → Prop
  | plain {gap : List Char} (blanks : Blanks gap) (rest : List Char) : EndText (gap ++ ';' :: rest)
  | options {gap body gap' : List Char} (blanks : Blanks gap) (unclosed : ']' ∉ body)
      (blanks' : Blanks gap') (rest : List Char) :
      EndText (gap ++ '[' :: (body ++ ']' :: (gap' ++ ';' :: rest)))

/-- The digits of a tag and the end of the field. -/
inductive TailText (digits : List Char) : List Char → Prop
  | mk {gap after : List Char} (blanks : Blanks gap) (ne_nil : digits ≠ [])
      (decimal : ∀ c ∈ digits, isDecimalDigit c = true) (ending : EndText after) :
      TailText digits (gap ++ (digits ++ after))

/-- A start of the text is a field that is made of the given parts. -/
def ReadsAs (cs : List Char) (parts : FieldParts) : Prop :=
  ∃ label body after, cs = label ++ body ∧ LabelText parts.label label ∧
    HeadText parts.typeName parts.name body after ∧ TailText parts.digits after

/-- The label is followed by a type and a name before the equals sign. -/
def Labelled (label : Label) (cs : List Char) : Prop :=
  ∃ gap body typeName name after, cs = label.word.toList ++ (gap ++ body) ∧ IsGap gap ∧
    HeadText typeName name body after

/-! ## Runs that end -/

/-- No character of the class stands at the start of the text. -/
def Stops (p : Char → Bool) (cs : List Char) : Prop :=
  ∀ c ∈ cs.head?, p c = false

theorem stops_cons {p : Char → Bool} {c : Char} (h : p c = false) (cs : List Char) :
    Stops p (c :: cs) := by
  intro d hd
  obtain rfl : c = d := by simpa using hd
  exact h

theorem stops_dropWhile (p : Char → Bool) (cs : List Char) : Stops p (cs.dropWhile p) := by
  intro c hc
  have hstop := List.head?_dropWhile_not p cs
  rw [Option.mem_def.mp hc] at hstop
  exact hstop

theorem takeWhile_append_of_stops {p : Char → Bool} {cs rest : List Char}
    (h : ∀ c ∈ cs, p c = true) (hrest : Stops p rest) : (cs ++ rest).takeWhile p = cs := by
  cases rest with
  | nil => rw [List.takeWhile_append_of_pos h, List.takeWhile_nil, List.append_nil]
  | cons c rest => exact takeWhile_append_stop h (hrest c rfl) rest

theorem dropWhile_append_of_stops {p : Char → Bool} {cs rest : List Char}
    (h : ∀ c ∈ cs, p c = true) (hrest : Stops p rest) : (cs ++ rest).dropWhile p = rest := by
  cases rest with
  | nil => rw [List.dropWhile_append_of_pos h, List.dropWhile_nil]
  | cons c rest => exact dropWhile_append_stop h (hrest c rfl) rest

theorem Blanks.skipBlanks_append {gap rest : List Char} (h : Blanks gap)
    (hrest : Stops isBlank rest) : skipBlanks (gap ++ rest) = rest :=
  dropWhile_append_of_stops h hrest

theorem Stops.append_of_blanks {p : Char → Bool} (hp : ∀ c, isBlank c = true → p c = false)
    {gap rest : List Char} (hgap : Blanks gap) (hrest : Stops p rest) : Stops p (gap ++ rest) := by
  cases gap with
  | nil => exact hrest
  | cons c gap => exact stops_cons (hp c (hgap c List.mem_cons_self)) _

theorem IsGap.stops {p : Char → Bool} (hp : ∀ c, isBlank c = true → p c = false)
    {gap : List Char} (hgap : IsGap gap) (rest : List Char) : Stops p (gap ++ rest) := by
  obtain ⟨c, gap, rfl⟩ := List.exists_cons_of_ne_nil hgap.ne_nil
  exact stops_cons (hp c (hgap.blank c List.mem_cons_self)) _

theorem exists_cons_of_isName {name : List Char} (h : isName name = true) :
    ∃ c rest, name = c :: rest ∧ isNameStart c = true := by
  cases name with
  | nil => contradiction
  | cons c rest => exact ⟨c, rest, rfl, (Bool.and_eq_true_iff.mp h).1⟩

theorem stops_isBlank_of_isName {name : List Char} (h : isName name = true) (rest : List Char) :
    Stops isBlank (name ++ rest) := by
  obtain ⟨c, more, rfl, hc⟩ := exists_cons_of_isName h
  exact stops_cons (isBlank_of_word (word_of_isNameStart hc)) _

/-! ## Scanners -/

theorem afterBlanks?_eq_some_iff {cs rest : List Char} :
    afterBlanks? cs = some rest ↔ ∃ gap, cs = gap ++ rest ∧ IsGap gap ∧ Stops isBlank rest := by
  constructor
  · intro h
    cases cs with
    | nil => contradiction
    | cons c cs =>
        simp only [afterBlanks?, Option.ite_none_right_eq_some, Option.some.injEq] at h
        obtain ⟨hc, rfl⟩ := h
        refine ⟨c :: cs.takeWhile isBlank, ?_, ⟨List.cons_ne_nil _ _, ?_⟩, stops_dropWhile _ _⟩
        · rw [List.cons_append, skipBlanks, List.takeWhile_append_dropWhile]
        · rw [List.forall_mem_cons]
          exact ⟨hc, List.all_eq_true.mp List.all_takeWhile⟩
  · rintro ⟨gap, rfl, hgap, hrest⟩
    obtain ⟨c, gap, rfl⟩ := List.exists_cons_of_ne_nil hgap.ne_nil
    obtain ⟨hc, hblanks⟩ := List.forall_mem_cons.mp hgap.blank
    rw [List.cons_append, afterBlanks?, if_pos hc, Blanks.skipBlanks_append hblanks hrest]

theorem afterChar?_eq_some_iff {mark : Char} (hmark : isBlank mark = false)
    {cs rest : List Char} :
    afterChar? mark cs = some rest ↔ ∃ gap, cs = gap ++ mark :: rest ∧ Blanks gap := by
  constructor
  · exact exists_of_afterChar?
  · rintro ⟨gap, rfl, hgap⟩
    rw [afterChar?, hgap.skipBlanks_append (stops_cons hmark rest)]
    exact if_pos rfl

theorem name?_eq_some_iff {cs name rest : List Char} :
    name? cs = some (name, rest) ↔ cs = name ++ rest ∧ isName name = true ∧
      Stops isWordChar rest := by
  constructor
  · intro h
    refine ⟨(append_of_name? h).symm, isName_of_name? h, ?_⟩
    cases cs with
    | nil => contradiction
    | cons c cs =>
        simp only [name?, Option.ite_none_right_eq_some, Option.some.injEq, Prod.mk.injEq] at h
        obtain ⟨-, -, rfl⟩ := h
        exact stops_dropWhile _ _
  · rintro ⟨rfl, hname, hrest⟩
    obtain ⟨c, more, rfl, hc⟩ := exists_cons_of_isName hname
    have hmore : ∀ d ∈ more, isWordChar d = true :=
      List.all_eq_true.mp (Bool.and_eq_true_iff.mp hname).2
    rw [List.cons_append, name?, if_pos hc, takeWhile_append_of_stops hmore hrest,
      dropWhile_append_of_stops hmore hrest]

theorem intercalate_nil_cons {names : List (List Char)} (h : names ≠ []) :
    ['.'].intercalate ([] :: names) = '.' :: ['.'].intercalate names := by
  obtain ⟨name, names, rfl⟩ := List.exists_cons_of_ne_nil h
  rw [List.intercalate_cons_cons]
  rfl

theorem dot_notMem_of_isName {name : List Char} (h : isName name = true) : '.' ∉ name := by
  intro hdot
  have hword := Header.isWordChar_of_mem_of_isName h hdot
  exact absurd hword (by decide)

theorem isReference_iff {cs : List Char} : isReference cs = true ↔ TypeText cs := by
  constructor
  · intro h
    have hcs : ['.'].intercalate (cs.splitOn '.') = cs := List.intercalate_splitOn '.'
    rw [← hcs]
    unfold isReference at h
    split at h
    · next names hsplit =>
        obtain ⟨hne, hnamed⟩ := Bool.and_eq_true_iff.mp h
        have hne : names ≠ [] := by simpa using hne
        rw [hsplit, intercalate_nil_cons hne]
        exact .absolute hne (List.all_eq_true.mp hnamed)
    · exact .relative (List.splitOn_ne_nil '.' cs) (List.all_eq_true.mp h)
  · intro h
    cases h with
    | @relative names ne_nil named =>
        have hdots : ∀ name ∈ names, '.' ∉ name := fun name h ↦ dot_notMem_of_isName (named name h)
        rw [isReference, List.splitOn_intercalate '.' hdots ne_nil]
        split
        · exact absurd (named [] List.mem_cons_self) (by decide)
        · exact List.all_eq_true.mpr named
    | @absolute names ne_nil named =>
        have hdots : ∀ name ∈ [] :: names, '.' ∉ name := by
          rw [List.forall_mem_cons]
          exact ⟨List.not_mem_nil, fun name h ↦ dot_notMem_of_isName (named name h)⟩
        rw [← intercalate_nil_cons ne_nil, isReference,
          List.splitOn_intercalate '.' hdots (List.cons_ne_nil _ _)]
        simpa [ne_nil] using named

theorem TypeText.isReferenceChar {cs : List Char} (h : TypeText cs) :
    ∀ c ∈ cs, isReferenceChar c = true := by
  have hchars {names : List (List Char)} (named : ∀ name ∈ names, isName name = true) :
      ∀ c ∈ ['.'].intercalate names, Grammar.isReferenceChar c = true := by
    intro c hc
    rcases SourceTree.mem_intercalate_dot hc with rfl | ⟨name, hname, hc⟩
    · decide
    · simp [Grammar.isReferenceChar, Header.isWordChar_of_mem_of_isName (named name hname) hc]
  cases h with
  | relative _ named => exact hchars named
  | absolute _ named =>
      rw [List.forall_mem_cons]
      exact ⟨by decide, hchars named⟩

theorem TypeText.stops {cs : List Char} (h : TypeText cs) (rest : List Char) :
    Stops isBlank (cs ++ rest) := by
  obtain ⟨c, more, rfl, hc⟩ := exists_cons_of_isReference (isReference_iff.mpr h)
  exact stops_cons hc _

theorem eq_of_afterOptions? {cs rest : List Char} (h : afterOptions? cs = some rest) :
    cs = rest ∨ ∃ body, cs = '[' :: (body ++ ']' :: rest) ∧ ']' ∉ body := by
  unfold afterOptions? at h
  split at h
  · next cs =>
      split at h
      · contradiction
      · next c tail hdrop =>
          obtain rfl := Option.some.inj h
          have hstop := stops_dropWhile (· ≠ ']') cs c (by rw [hdrop]; rfl)
          obtain rfl : c = ']' := by simpa using hstop
          refine .inr ⟨cs.takeWhile (· ≠ ']'), ?_, ?_⟩
          · rw [← hdrop, List.takeWhile_append_dropWhile]
          · intro hmem
            have hbefore := List.all_eq_true.mp List.all_takeWhile _ hmem
            simp at hbefore
  · exact .inl (Option.some.inj h)

theorem EndText.stops {cs : List Char} (h : EndText cs) : Stops isDecimalDigit cs := by
  have hblank := isToken_isDecimalDigit.blank
  cases h with
  | plain blanks => exact Stops.append_of_blanks hblank blanks (stops_cons (by decide) _)
  | options blanks => exact Stops.append_of_blanks hblank blanks (stops_cons (by decide) _)

theorem isSome_afterField?_skipBlanks_iff {cs : List Char} :
    (afterField? (skipBlanks cs)).isSome = true ↔ EndText cs := by
  constructor
  · intro h
    obtain ⟨rest, h⟩ := Option.isSome_iff_exists.mp h
    obtain ⟨after, hoptions, hsemicolon⟩ := Option.bind_eq_some_iff.mp h
    obtain ⟨gap', rfl, hgap'⟩ := (afterChar?_eq_some_iff isBlank_semicolon).mp hsemicolon
    obtain ⟨gap, hcs, hgap⟩ := exists_skipBlanks_eq cs
    rcases eq_of_afterOptions? hoptions with hplain | ⟨body, hbody, hunclosed⟩
    · rw [hcs, hplain, ← List.append_assoc]
      exact .plain (List.forall_mem_append.mpr ⟨hgap, hgap'⟩) rest
    · rw [hcs, hbody]
      exact .options hgap hunclosed hgap' rest
  · intro h
    cases h with
    | plain blanks rest =>
        rw [blanks.skipBlanks_append (stops_cons isBlank_semicolon rest), afterField?_semicolon]
        rfl
    | options blanks unclosed blanks' rest =>
        rw [blanks.skipBlanks_append (stops_cons (by decide) _), afterField?,
          afterOptions?_bracket unclosed, Option.bind_some,
          (afterChar?_eq_some_iff isBlank_semicolon).mpr ⟨_, rfl, blanks'⟩]
        rfl

/-! ## The two halves of a field -/

/-- The type and the name of a field, and what follows the equals sign. -/
def typeAndName? (cs : List Char) : Option (List Char × List Char × List Char) := do
  let typeName := cs.takeWhile isReferenceChar
  guard (isReference typeName)
  let cs ← afterBlanks? (cs.dropWhile isReferenceChar)
  let (name, cs) ← name? cs
  let cs ← afterChar? '=' cs
  return (typeName, name, cs)

/-- The digits that stand between an equals sign and the end of a field. -/
def tagDigits? (cs : List Char) : Option (List Char) := do
  let digits := (skipBlanks cs).takeWhile isDecimalDigit
  guard !digits.isEmpty
  let _ ← afterField? (skipBlanks ((skipBlanks cs).dropWhile isDecimalDigit))
  return digits

theorem unlabelled?_eq_halves (label : Option Label) (cs : List Char) :
    unlabelled? label cs = (typeAndName? cs).bind fun head ↦
      (tagDigits? head.2.2).map fun digits ↦ ⟨label, head.1, head.2.1, digits⟩ := by
  simp only [unlabelled?, typeAndName?, tagDigits?, afterField?, Option.bind_eq_bind,
    Option.bind_assoc, Option.pure_def, Option.bind_some, Option.map_bind, Option.map_some,
    Function.comp_def]

theorem typeAndName?_eq_some_iff {cs typeName name after : List Char} :
    typeAndName? cs = some (typeName, name, after) ↔ HeadText typeName name cs after := by
  simp only [typeAndName?, Option.bind_eq_bind, Option.bind_eq_some_iff, Option.pure_def,
    Option.some.injEq, Prod.mk.injEq, Option.guard_eq_some']
  constructor
  · rintro ⟨-, hreference, _, hblanks, ⟨_, _⟩, hname, after, hequals, rfl, rfl, rfl⟩
    obtain ⟨gap, hdrop, hgap, -⟩ := afterBlanks?_eq_some_iff.mp hblanks
    obtain ⟨rfl, hnamed, -⟩ := name?_eq_some_iff.mp hname
    obtain ⟨gap', rfl, hgap'⟩ := (afterChar?_eq_some_iff isBlank_equals).mp hequals
    have hhead := HeadText.mk (isReference_iff.mp hreference) hgap hnamed hgap' after
    rwa [← hdrop, List.takeWhile_append_dropWhile] at hhead
  · rintro ⟨type, between, named, blanks, -⟩
    have hstop := between.stops isToken_isReferenceChar.blank
    rw [takeWhile_append_of_stops type.isReferenceChar (hstop _),
      dropWhile_append_of_stops type.isReferenceChar (hstop _)]
    have hword := Stops.append_of_blanks isToken_isWordChar.blank blanks
      (stops_cons (by decide : isWordChar '=' = false) after)
    exact ⟨(), isReference_iff.mpr type,
      _, afterBlanks?_eq_some_iff.mpr ⟨_, rfl, between, stops_isBlank_of_isName named _⟩,
      (name, _), name?_eq_some_iff.mpr ⟨rfl, named, hword⟩,
      after, (afterChar?_eq_some_iff isBlank_equals).mpr ⟨_, rfl, blanks⟩, rfl, rfl, rfl⟩

theorem tagDigits?_eq_some_iff {cs digits : List Char} :
    tagDigits? cs = some digits ↔ TailText digits cs := by
  simp only [tagDigits?, Option.bind_eq_bind, Option.bind_eq_some_iff, Option.pure_def,
    Option.some.injEq, Option.guard_eq_some']
  constructor
  · rintro ⟨-, hne, rest, hrest, rfl⟩
    obtain ⟨gap, hcs, hgap⟩ := exists_skipBlanks_eq cs
    have hending : EndText ((skipBlanks cs).dropWhile isDecimalDigit) :=
      isSome_afterField?_skipBlanks_iff.mp (Option.isSome_of_eq_some hrest)
    have htail := TailText.mk hgap (by simpa using hne)
      (List.all_eq_true.mp List.all_takeWhile) hending
    rwa [List.takeWhile_append_dropWhile, ← hcs] at htail
  · rintro @⟨gap, after, blanks, ne_nil, decimal, ending⟩
    obtain ⟨c, more, rfl⟩ := List.exists_cons_of_ne_nil ne_nil
    have hc : isBlank c = false := by
      by_contra hblank
      have hdigit := decimal c List.mem_cons_self
      rw [isDecimalDigit_of_isBlank (by simpa using hblank)] at hdigit
      contradiction
    obtain ⟨rest, hrest⟩ :=
      Option.isSome_iff_exists.mp (isSome_afterField?_skipBlanks_iff.mpr ending)
    have hskip : skipBlanks (gap ++ (c :: more ++ after)) = c :: more ++ after :=
      blanks.skipBlanks_append (stops_cons hc _)
    rw [hskip, takeWhile_append_of_stops decimal ending.stops,
      dropWhile_append_of_stops decimal ending.stops]
    exact ⟨(), rfl, rest, hrest, rfl⟩

theorem unlabelled?_eq_some_iff {label : Option Label} {cs : List Char} {parts : FieldParts} :
    unlabelled? label cs = some parts ↔ parts.label = label ∧
      ∃ after, HeadText parts.typeName parts.name cs after ∧ TailText parts.digits after := by
  simp only [unlabelled?_eq_halves, Option.bind_eq_some_iff, Option.map_eq_some_iff, Prod.exists,
    typeAndName?_eq_some_iff, tagDigits?_eq_some_iff]
  constructor
  · rintro ⟨typeName, name, after, hhead, digits, htail, rfl⟩
    exact ⟨rfl, after, hhead, htail⟩
  · rintro ⟨rfl, after, hhead, htail⟩
    exact ⟨_, _, after, hhead, _, htail, rfl⟩

/-! ## Labels -/

theorem labelled?_eq_some_iff {label : Label} {cs : List Char} {parts : FieldParts} :
    labelled? label cs = some parts ↔ parts.label = some label ∧ ReadsAs cs parts := by
  simp only [labelled?, Option.bind_eq_bind, Option.bind_eq_some_iff, after?_eq_some_iff,
    afterBlanks?_eq_some_iff, unlabelled?_eq_some_iff]
  constructor
  · rintro ⟨_, rfl, body, ⟨gap, rfl, hgap, -⟩, hlabel, after, hhead, htail⟩
    refine ⟨hlabel, label.word.toList ++ gap, body, after, ?_, ?_, hhead, htail⟩
    · rw [List.append_assoc]
    · rw [hlabel]
      exact .present label hgap
  · rintro ⟨hlabel, text, body, after, rfl, htext, hhead, htail⟩
    rw [hlabel] at htext
    cases htext with
    | present _ blanks =>
        refine ⟨_, List.append_assoc _ _ _, body, ⟨_, rfl, blanks, ?_⟩, hlabel, after, hhead, htail⟩
        obtain ⟨type, -, -, -, -⟩ := hhead
        exact type.stops _

/-- What stands after the first word of a text and the blanks that follow it. -/
theorem skipBlanks_dropWhile_append {word gap rest : List Char}
    (hword : ∀ c ∈ word, isReferenceChar c = true) (hgap : Blanks gap)
    (hstop : Stops isReferenceChar (gap ++ rest)) (hrest : Stops isBlank rest) :
    skipBlanks ((word ++ (gap ++ rest)).dropWhile isReferenceChar) = rest := by
  rw [dropWhile_append_of_stops hword hstop, hgap.skipBlanks_append hrest]

theorem HeadText.skipBlanks_dropWhile {typeName name cs after : List Char}
    (h : HeadText typeName name cs after) :
    isName name = true ∧ ∃ gap, Blanks gap ∧
      skipBlanks (cs.dropWhile isReferenceChar) = name ++ (gap ++ '=' :: after) := by
  obtain ⟨type, between, named, blanks, -⟩ := h
  refine ⟨named, _, blanks, ?_⟩
  exact skipBlanks_dropWhile_append type.isReferenceChar between.blank
    (between.stops isToken_isReferenceChar.blank _) (stops_isBlank_of_isName named _)

/-- A name up to an equals sign leaves no room for a type and a name. -/
theorem not_headText_of_isName {name gap rest typeName name' after : List Char}
    (hname : isName name = true) (hgap : Blanks gap) :
    ¬HeadText typeName name' (name ++ (gap ++ '=' :: rest)) after := by
  intro h
  obtain ⟨hname', gap', -, hafter⟩ := h.skipBlanks_dropWhile
  have hword : ∀ c ∈ name, isReferenceChar c = true := by
    intro c hc
    rw [isReferenceChar, Header.isWordChar_of_mem_of_isName hname hc, Bool.true_or]
  rw [skipBlanks_dropWhile_append hword hgap (Stops.append_of_blanks isToken_isReferenceChar.blank
    hgap (stops_cons (by decide) rest)) (stops_cons isBlank_equals rest)] at hafter
  obtain ⟨c, more, rfl, hc⟩ := exists_cons_of_isName hname'
  obtain ⟨rfl, -⟩ := List.cons.inj hafter
  exact absurd hc (by decide)

/-- A text that goes on after its first word with a type and a name does not have that word for a
type. -/
theorem not_headText_of_labelled {label : Label} {cs typeName name after : List Char}
    (h : Labelled label cs) : ¬HeadText typeName name cs after := by
  obtain ⟨gap, body, typeName', name', after', rfl, hgap, hbody⟩ := h
  intro h
  obtain ⟨hname, gap', hgap', hafter⟩ := h.skipBlanks_dropWhile
  have hstop : Stops isBlank body := by
    obtain ⟨type, -, -, -, -⟩ := hbody
    exact type.stops _
  rw [skipBlanks_dropWhile_append label.isReferenceChar_word hgap.blank
    (hgap.stops isToken_isReferenceChar.blank body) hstop] at hafter
  rw [hafter] at hbody
  exact not_headText_of_isName hname hgap' hbody

theorem Label.word_injective {label label' : Label} (h : label.word = label'.word) :
    label = label' := by
  cases label with
  | repeated =>
      cases label' with
      | repeated => rfl
      | optional => exact absurd h (by decide)
  | optional =>
      cases label' with
      | repeated => exact absurd h (by decide)
      | optional => rfl

theorem Labelled.unique {label label' : Label} {cs : List Char} (h : Labelled label cs)
    (h' : Labelled label' cs) : label = label' := by
  obtain ⟨gap, body, -, -, -, rfl, hgap, -⟩ := h
  obtain ⟨gap', body', -, -, -, hcs, hgap', -⟩ := h'
  obtain ⟨c, gap, rfl, hc⟩ := hgap.exists_cons
  obtain ⟨d, gap', rfl, hd⟩ := hgap'.exists_cons
  obtain ⟨hword, -⟩ := append_blank_inj label.word_not_blank label'.word_not_blank hc hd hcs
  exact Label.word_injective (String.toList_inj.mp hword)

theorem ReadsAs.label_eq_some_iff {cs : List Char} {parts : FieldParts} (h : ReadsAs cs parts)
    (label : Label) : parts.label = some label ↔ Labelled label cs := by
  have hread (label : Label) (hlabel : parts.label = some label) : Labelled label cs := by
    obtain ⟨text, body, after, rfl, htext, hhead, -⟩ := h
    rw [hlabel] at htext
    cases htext with
    | present _ blanks =>
        exact ⟨_, body, _, _, after, List.append_assoc _ _ _, blanks, hhead⟩
  refine ⟨hread label, fun hlabelled ↦ ?_⟩
  cases hlabel : parts.label with
  | some label' => rw [hlabelled.unique (hread label' hlabel)]
  | none =>
      obtain ⟨text, body, after, rfl, htext, hhead, -⟩ := h
      rw [hlabel] at htext
      cases htext with
      | absent => exact absurd hhead (not_headText_of_labelled hlabelled)

theorem labelled?_eq_none {label : Label} {cs : List Char} {parts : FieldParts}
    (h : ReadsAs cs parts) (hlabel : parts.label ≠ some label) : labelled? label cs = none := by
  rw [Option.eq_none_iff_forall_ne_some]
  intro other hother
  obtain ⟨hothers, hreads⟩ := labelled?_eq_some_iff.mp hother
  exact hlabel ((h.label_eq_some_iff label).mpr ((hreads.label_eq_some_iff label).mp hothers))

theorem unlabelled?_none_eq_some_iff {cs : List Char} {parts : FieldParts} :
    unlabelled? none cs = some parts ↔ parts.label = none ∧ ReadsAs cs parts := by
  rw [unlabelled?_eq_some_iff]
  apply and_congr_right
  intro hlabel
  constructor
  · rintro ⟨after, hhead, htail⟩
    refine ⟨[], cs, after, rfl, ?_, hhead, htail⟩
    rw [hlabel]
    exact .absent
  · rintro ⟨text, body, after, rfl, htext, hhead, htail⟩
    rw [hlabel] at htext
    cases htext with
    | absent => exact ⟨after, hhead, htail⟩

/-- The grammar finds the reading of a text if there is one, in whatever order it looks. -/
theorem fieldParts?_eq_some_iff {cs : List Char} {parts : FieldParts} :
    fieldParts? cs = some parts ↔ ReadsAs cs parts := by
  unfold fieldParts?
  constructor
  · intro h
    simp only [Option.orElse_eq_orElse, Option.orElse_eq_or, Option.or_eq_some_iff] at h
    rcases h with h | ⟨-, h | ⟨-, h⟩⟩
    · exact (labelled?_eq_some_iff.mp h).2
    · exact (labelled?_eq_some_iff.mp h).2
    · exact (unlabelled?_none_eq_some_iff.mp h).2
  · intro h
    match hlabel : parts.label with
    | some .repeated =>
        rw [labelled?_eq_some_iff.mpr ⟨hlabel, h⟩]
        rfl
    | some .optional =>
        rw [labelled?_eq_none h (by simp [hlabel]), labelled?_eq_some_iff.mpr ⟨hlabel, h⟩]
        rfl
    | none =>
        rw [labelled?_eq_none h (by simp [hlabel]), labelled?_eq_none h (by simp [hlabel]),
          unlabelled?_none_eq_some_iff.mpr ⟨hlabel, h⟩]
        rfl

theorem ReadsAs.unique {cs : List Char} {parts parts' : FieldParts} (h : ReadsAs cs parts)
    (h' : ReadsAs cs parts') : parts = parts' := by
  rw [← fieldParts?_eq_some_iff] at h h'
  exact Option.some.inj (h.symm.trans h')

theorem tag?_eq_some_iff {digits : List Char} {n : ℕ} :
    tag? digits = some n ↔ Denotes 10 digits n ∧ 0 < n ∧ n < 2 ^ 32 := by
  rw [tag?, Option.filter_eq_some_iff, natural?_eq_some_iff (by omega)]
  simp

end Grammar

open Grammar Source

/-- The field that has these parts, with the number that its tag denotes. -/
def Grammar.FieldParts.field (parts : FieldParts) (tag line : ℕ) : Field where
  typeName := String.ofList parts.typeName
  name := String.ofList parts.name
  tag := tag
  line := line
  isScalar := (Scalar.ofName? (String.ofList parts.typeName)).isSome
  isRepeated := parts.label == some .repeated
  oneof := none
  targetType := none

theorem Field.ofLine?_of_tag? {l : Line} {parts : FieldParts} (h : ReadsAs l.text.toList parts)
    {n : ℕ} (hn : tag? parts.digits = some n) :
    Field.ofLine? l = .ok (some (parts.field n l.number)) := by
  simp only [Field.ofLine?, fieldParts?_eq_some_iff.mpr h, hn]
  rfl

theorem Field.ofLine?_of_no_tag {l : Line} {parts : FieldParts} (h : ReadsAs l.text.toList parts)
    (hnone : tag? parts.digits = none) :
    Field.ofLine? l = .error (.malformedFieldTag (String.ofList parts.name)
      (String.ofList parts.digits) l.number) := by
  simp only [Field.ofLine?, fieldParts?_eq_some_iff.mpr h, hnone]

/-- A line is a field exactly if a start of it can be cut into the parts of one.  There is then only
one way to do so, in which a label is a label exactly if a type and a name follow it; and the field
has these parts, or its tag is no number of 32 bits and is reported as it stands. -/
theorem Field.reading_unique (l : Line) :
    (Field.ofLine? l = .ok none ↔ ¬∃ parts, ReadsAs l.text.toList parts) ∧
    ∀ parts, ReadsAs l.text.toList parts →
      (∀ other, ReadsAs l.text.toList other → other = parts) ∧
      (∀ label, parts.label = some label ↔ Labelled label l.text.toList) ∧
      (∀ n, Denotes 10 parts.digits n → 0 < n → n < 2 ^ 32 →
        Field.ofLine? l = .ok (some (parts.field n l.number))) ∧
      ((¬∃ n, Denotes 10 parts.digits n ∧ 0 < n ∧ n < 2 ^ 32) →
        Field.ofLine? l = .error (.malformedFieldTag (String.ofList parts.name)
          (String.ofList parts.digits) l.number)) := by
  refine ⟨⟨?_, ?_⟩, fun parts hparts ↦ ⟨?_, hparts.label_eq_some_iff, ?_, ?_⟩⟩
  · rintro hnone ⟨parts, hparts⟩
    cases htag : tag? parts.digits with
    | none =>
        rw [Field.ofLine?_of_no_tag hparts htag] at hnone
        contradiction
    | some n =>
        rw [Field.ofLine?_of_tag? hparts htag] at hnone
        cases Except.ok.inj hnone
  · intro hreading
    have hnone : fieldParts? l.text.toList = none := by
      rw [Option.eq_none_iff_forall_ne_some]
      intro parts hparts
      exact hreading ⟨parts, fieldParts?_eq_some_iff.mp hparts⟩
    rw [Field.ofLine?, hnone]
  · intro other hother
    exact hother.unique hparts
  · intro n hn hpos hlt
    exact Field.ofLine?_of_tag? hparts (tag?_eq_some_iff.mpr ⟨hn, hpos, hlt⟩)
  · intro hdigits
    apply Field.ofLine?_of_no_tag hparts
    rw [Option.eq_none_iff_forall_ne_some]
    intro n hn
    exact hdigits ⟨n, tag?_eq_some_iff.mp hn⟩

/-- Words that may be labels, as a label, a type and a name, and zeros in front of a tag. -/
theorem Field.reading_unique_labels :
    Field.ofLine? ⟨"repeated optional repeated=007 [a];b", 3⟩ =
        .ok (some ⟨"optional", "repeated", 7, 3, false, true, none, none⟩) ∧
      Field.ofLine? ⟨"optional repeated = 4294967296;", 4⟩ =
        .error (.malformedFieldTag "repeated" "4294967296" 4) := by
  constructor
  · have hreads : ReadsAs "repeated optional repeated=007 [a];b".toList
        ⟨some .repeated, "optional".toList, "repeated".toList, "007".toList⟩ :=
      fieldParts?_eq_some_iff.mp (by decide +kernel)
    have hdigits : Denotes 10 "007".toList 7 :=
      (natural?_eq_some_iff (by omega)).mp (by decide +kernel)
    obtain ⟨-, -, hfield, -⟩ :=
      (Field.reading_unique ⟨"repeated optional repeated=007 [a];b", 3⟩).2 _ hreads
    exact hfield 7 hdigits (by omega) (by omega)
  · have hreads : ReadsAs "optional repeated = 4294967296;".toList
        ⟨none, "optional".toList, "repeated".toList, "4294967296".toList⟩ :=
      fieldParts?_eq_some_iff.mp (by decide +kernel)
    have hlarge : ¬∃ n, Denotes 10 "4294967296".toList n ∧ 0 < n ∧ n < 2 ^ 32 := by
      rintro ⟨n, hn⟩
      have hnone : tag? "4294967296".toList = none := by decide +kernel
      rw [← tag?_eq_some_iff, hnone] at hn
      contradiction
    obtain ⟨-, -, -, hfault⟩ :=
      (Field.reading_unique ⟨"optional repeated = 4294967296;", 4⟩).2 _ hreads
    exact hfault hlarge

end ProtoHeader

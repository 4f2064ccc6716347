import Mathlib.Data.List.Infix
import Mathlib.Tactic.MkIffOfInductiveProp
import ProtoHeader.Proofs.ClosingLines
import ProtoHeader.Proofs.Reflow

/-!
# Canonical lines

The lines that a text is cut into have a shape of their own, and any list of lines of that shape is
what the text made of them is cut into.  A line keeps this shape although comments are taken out of
it and blanks cut off, since what is left is read just as it was read in the text.
-/

namespace ProtoHeader.Source

open Text Reader

/-! ## Characters outside literals -/

/-- The given characters stand somewhere in the text, outside literals and comments. -/
def Exposed (cs t : List Char) : Prop :=
  ∃ before ∈ t.inits, Outside before ∧ before ++ cs <+: t

instance (cs t : List Char) : Decidable (Exposed cs t) :=
  inferInstanceAs (Decidable (∃ before ∈ t.inits, _))

theorem exposed_iff {cs t : List Char} :
    Exposed cs t ↔ ∃ before, Outside before ∧ before ++ cs <+: t := by
  constructor
  · rintro ⟨before, -, h⟩
    exact ⟨before, h⟩
  · rintro ⟨before, houtside, h⟩
    exact ⟨before, (List.mem_inits _ _).2 ((List.prefix_append before cs).trans h), houtside, h⟩

theorem Exposed.of_isPrefix {cs t u : List Char} (h : Exposed cs t) (htu : t <+: u) :
    Exposed cs u := by
  obtain ⟨before, houtside, hprefix⟩ := exposed_iff.1 h
  exact exposed_iff.2 ⟨before, houtside, hprefix.trans htu⟩

theorem readerAfter_blanks {blanks : List Char} (h : ∀ b ∈ blanks, isBlank b = true) :
    readerAfter blanks = code := by
  induction blanks using List.reverseRecOn with
  | nil => rfl
  | append_singleton blanks b ih =>
      have hb := h b (by simp)
      have hinit := ih fun c hc ↦ h c (List.mem_append_left [b] hc)
      rw [readerAfter_append, hinit]
      by_cases hbreak : b = '\n'
      · subst hbreak
        rfl
      · have hordinary := isOrdinary_of_isBlank hb hbreak
        simp only [IsOrdinary, List.mem_cons, List.not_mem_nil, or_false, not_or] at hordinary
        simp [next, Reader.afterCode, hordinary]

theorem Exposed.blanks_append {cs t blanks : List Char} (h : Exposed cs t)
    (hblanks : ∀ b ∈ blanks, isBlank b = true) : Exposed cs (blanks ++ t) := by
  obtain ⟨before, houtside, hprefix⟩ := exposed_iff.1 h
  have hreader : readerAfter (blanks ++ before) = readerAfter before := by
    rw [readerAfter_append, readerAfter_blanks hblanks]
    rfl
  refine exposed_iff.2 ⟨blanks ++ before, ?_, ?_⟩
  · rw [Outside, hreader]
    exact houtside
  · rw [List.append_assoc, List.prefix_append_right_inj]
    exact hprefix

theorem exposed_concat {cs t : List Char} {c : Char} :
    Exposed cs (t ++ [c]) ↔
      Exposed cs t ∨ ∃ before, Outside before ∧ before ++ cs = t ++ [c] := by
  simp only [exposed_iff, List.prefix_concat_iff]
  grind

theorem exposed_single_concat {d c : Char} {t : List Char} :
    Exposed [d] (t ++ [c]) ↔ Exposed [d] t ∨ Outside t ∧ d = c := by
  rw [exposed_concat]
  simp only [List.append_singleton_inj]
  grind

theorem exposed_pair_concat {d e c : Char} {t : List Char} :
    Exposed [d, e] (t ++ [c]) ↔
      Exposed [d, e] t ∨ (∃ before, Outside before ∧ t = before ++ [d]) ∧ e = c := by
  rw [exposed_concat]
  have hsplit (before : List Char) : before ++ [d, e] = t ++ [c] ↔ t = before ++ [d] ∧ e = c := by
    rw [List.append_cons, List.append_singleton_inj]
    grind
  simp only [hsplit]
  grind

/-! ## Statements that have not ended -/

/-- What stands in no line beside other characters. -/
def interrupts : List (List Char) :=
  [['}'], ['/', '/'], ['/', '*']]

/-- What ends a line. -/
def stops : List (List Char) :=
  [[';'], ['{']]

/-- The characters are the start of a statement and no more. -/
def Flowing (t : List Char) : Prop :=
  ∀ cs ∈ interrupts ++ stops, ¬Exposed cs t

/-- The character neither ends a statement nor opens a comment. -/
def Reader.GoesOn (σ : Reader) (c : Char) : Prop :=
  (σ.outside = true → c ≠ '}' ∧ c ≠ ';' ∧ c ≠ '{') ∧ (σ = slash → c ≠ '/' ∧ c ≠ '*')

theorem Reader.goesOn_of_inside {σ : Reader} (h : σ.outside = false) (c : Char) : σ.GoesOn c := by
  constructor
  · intro houtside
    exact absurd (h.symm.trans houtside) Bool.false_ne_true
  · rintro rfl
    exact absurd h.symm Bool.false_ne_true

theorem Flowing.of_isPrefix {t u : List Char} (h : Flowing u) (htu : t <+: u) : Flowing t :=
  fun cs hcs hexposed ↦ h cs hcs (hexposed.of_isPrefix htu)

theorem exists_slash_of_readerAfter {t : List Char} (h : readerAfter t = slash) :
    ∃ before, Outside before ∧ t = before ++ ['/'] := by
  cases t using List.reverseRecOn with
  | nil => exact nomatch h
  | append_singleton before c =>
      rw [readerAfter_append, List.foldl_cons, List.foldl_nil] at h
      cases hbefore : readerAfter before <;> rw [hbefore] at h <;>
        grind [next, Reader.afterCode, Reader.nextLine, Outside, outside]

theorem Flowing.readerAfter_eq_slash_iff {t : List Char} (h : Flowing t) :
    readerAfter t = slash ↔ ∃ before, Outside before ∧ t = before ++ ['/'] := by
  constructor
  · exact exists_slash_of_readerAfter
  · rintro ⟨before, houtside, rfl⟩
    rw [readerAfter_append]
    cases hbefore : readerAfter before with
    | code => rfl
    | slash =>
        obtain ⟨first, hfirst, rfl⟩ := exists_slash_of_readerAfter hbefore
        have hcomment : Exposed ['/', '/'] (first ++ ['/'] ++ ['/']) :=
          exposed_pair_concat.2 (.inr ⟨⟨first, hfirst, rfl⟩, rfl⟩)
        exact absurd hcomment (h _ (by decide))
    | _ => simp [Outside, hbefore, outside] at houtside

theorem flowing_concat {t : List Char} {c : Char} :
    Flowing (t ++ [c]) ↔ Flowing t ∧ (readerAfter t).GoesOn c := by
  constructor
  · intro h
    refine ⟨h.of_isPrefix (List.prefix_append t [c]), ?_, ?_⟩
    · intro houtside
      refine ⟨?_, ?_, ?_⟩ <;>
      · rintro rfl
        exact h _ (by decide) (exposed_single_concat.2 (.inr ⟨houtside, rfl⟩))
    · intro hslash
      have hbefore := exists_slash_of_readerAfter hslash
      constructor <;>
      · rintro rfl
        exact h _ (by decide) (exposed_pair_concat.2 (.inr ⟨hbefore, rfl⟩))
  · rintro ⟨h, hends, hopens⟩ cs hcs hexposed
    have hold := h cs hcs
    rw [h.readerAfter_eq_slash_iff] at hopens
    simp only [interrupts, stops, List.cons_append, List.nil_append, List.mem_cons,
      List.not_mem_nil, or_false] at hcs
    rcases hcs with rfl | rfl | rfl | rfl | rfl
    · obtain ⟨houtside, rfl⟩ := (exposed_single_concat.1 hexposed).resolve_left hold
      exact (hends houtside).1 rfl
    · obtain ⟨hslash, rfl⟩ := (exposed_pair_concat.1 hexposed).resolve_left hold
      exact (hopens hslash).1 rfl
    · obtain ⟨hslash, rfl⟩ := (exposed_pair_concat.1 hexposed).resolve_left hold
      exact (hopens hslash).2 rfl
    · obtain ⟨houtside, rfl⟩ := (exposed_single_concat.1 hexposed).resolve_left hold
      exact (hends houtside).2.1 rfl
    · obtain ⟨houtside, rfl⟩ := (exposed_single_concat.1 hexposed).resolve_left hold
      exact (hends houtside).2.2 rfl

theorem flowing_nil : Flowing [] := by
  unfold Flowing
  decide

/-- The reader is in a comment. -/
def Reader.inComment : Reader → Bool
  | lineComment => true
  | blockComment => true
  | star => true
  | _ => false

theorem Reader.GoesOn.inComment_next {σ : Reader} {c : Char} (h : σ.GoesOn c)
    (hσ : σ.inComment = false) : (σ.next c).inComment = false := by
  cases σ <;> grind [GoesOn, inComment, next, Reader.nextLine, Reader.afterCode]

theorem Flowing.inComment {t : List Char} (h : Flowing t) :
    (readerAfter t).inComment = false := by
  induction t using List.reverseRecOn with
  | nil => rfl
  | append_singleton t c ih =>
      obtain ⟨ht, hc⟩ := flowing_concat.1 h
      rw [readerAfter_append]
      exact hc.inComment_next (ih ht)

theorem Reader.emit_outside {σ : Reader} (hσ : σ.outside = true) {c : Char} (hbreak : c ≠ '\n')
    (hslash : c ≠ '/') (hstar : σ = slash → c ≠ '*') :
    σ.emit c = σ.held.map .plain ++ [.ofCode c] ∧ σ.next c = Reader.afterCode c := by
  cases σ with
  | code => simp [emit, next, held, codeMarks, hbreak, hslash]
  | slash => simp [emit, next, held, codeMarks, hbreak, hslash, hstar]
  | _ => exact absurd hσ Bool.false_ne_true

theorem Reader.GoesOn.emit_append_held {σ : Reader} {c : Char} (h : σ.GoesOn c)
    (hσ : σ.inComment = false) (hbreak : c ≠ '\n') :
    σ.emit c ++ (σ.next c).held.map .plain = σ.held.map .plain ++ [.plain c] := by
  by_cases houtside : σ.outside = true
  · by_cases hslash : c = '/'
    · -- The slash is held back, and there is none before it.
      subst hslash
      cases σ with
      | code => rfl
      | slash => exact absurd rfl (h.2 rfl).1
      | _ => exact absurd houtside Bool.false_ne_true
    · obtain ⟨hclose, hstop, hopen⟩ := h.1 houtside
      obtain ⟨hemit, hnext⟩ := emit_outside houtside hbreak hslash fun hslash ↦ (h.2 hslash).2
      have hheld : (Reader.afterCode c).held = [] := by
        rw [Reader.afterCode, if_neg hslash]
        split <;> rfl
      rw [hemit, hnext, hheld]
      simp [Mark.ofCode, hclose, hstop, hopen]
  · cases σ with
    | literal quote =>
        have hheld : ((literal quote).next c).held = [] := by grind [next, held]
        rw [hheld]
        simp [emit, held, hbreak]
    | escape quote => simp [emit, next, held, hbreak]
    | code => exact absurd rfl houtside
    | slash => exact absurd rfl houtside
    | _ => exact absurd hσ.symm Bool.false_ne_true

/-- A statement that has not ended is kept as it is. -/
theorem Flowing.emitted_append_held {t : List Char} (h : Flowing t) (hbreak : '\n' ∉ t) :
    code.emitted t ++ (readerAfter t).held.map .plain = t.map .plain := by
  induction t using List.reverseRecOn with
  | nil => rfl
  | append_singleton t c ih =>
      obtain ⟨ht, hc⟩ := flowing_concat.1 h
      have hinit := ih ht (by grind)
      have hlast := hc.emit_append_held ht.inComment (by grind)
      rw [emitted_append, readerAfter_append, List.map_append, ← hinit, List.append_assoc,
        List.append_assoc]
      congr 1
      rw [emitted, emitted, List.append_nil]
      exact hlast

/-! ## Canonical lines -/

/-- The characters are one statement or part of one: it has not ended before the last of them.  They
open no comment, so that all of them that are not in a literal stand outside. -/
def OneStatement (t : List Char) : Prop :=
  (∀ cs ∈ interrupts, ¬Exposed cs t) ∧ ∀ cs ∈ stops, ¬Exposed cs t.dropLast

instance (t : List Char) : Decidable (OneStatement t) :=
  inferInstanceAs (Decidable (_ ∧ _))

/-- A line as texts are cut into: a closing brace alone, or no more than one statement. -/
@[mk_iff]
structure IsCanonical (t : List Char) : Prop where
  ne_nil : t ≠ []
  first : t.head?.any isBlank = false
  last : t.getLast?.any isBlank = false
  unbroken : '\n' ∉ t
  shape : t = ['}'] ∨ OneStatement t

instance (t : List Char) : Decidable (IsCanonical t) :=
  decidable_of_iff' _ (isCanonical_iff t)

theorem isCanonical_close : IsCanonical (String.ofList ['}']).toList := by
  decide

theorem Flowing.oneStatement {t : List Char} (h : Flowing t) : OneStatement t := by
  constructor
  · intro cs hcs
    exact h cs (List.mem_append_left stops hcs)
  · intro cs hcs hexposed
    exact h cs (List.mem_append_right interrupts hcs) (hexposed.of_isPrefix t.dropLast_prefix)

theorem Flowing.oneStatement_concat {t : List Char} (h : Flowing t) {c : Char}
    (hc : c = ';' ∨ c = '{') : OneStatement (t ++ [c]) := by
  constructor
  · intro cs hcs hexposed
    have hold := h cs (List.mem_append_left stops hcs)
    simp only [interrupts, List.mem_cons, List.not_mem_nil, or_false] at hcs
    rcases hcs with rfl | rfl | rfl
    · have hlast := (exposed_single_concat.1 hexposed).resolve_left hold
      grind
    · have hlast := (exposed_pair_concat.1 hexposed).resolve_left hold
      grind
    · have hlast := (exposed_pair_concat.1 hexposed).resolve_left hold
      grind
  · rw [List.dropLast_concat]
    intro cs hcs
    exact h cs (List.mem_append_right interrupts hcs)

/-- A statement goes on at the last of its characters, or that character ends it. -/
theorem OneStatement.concat_cases {t : List Char} {c : Char} (h : OneStatement (t ++ [c])) :
    Flowing t ∧ ((readerAfter t).GoesOn c ∨ Outside t ∧ (c = ';' ∨ c = '{')) := by
  obtain ⟨hinterrupts, hstops⟩ := h
  rw [List.dropLast_concat] at hstops
  have ht : Flowing t := by
    intro cs hcs hexposed
    rcases List.mem_append.1 hcs with hcs | hcs
    · exact hinterrupts cs hcs (hexposed.of_isPrefix (List.prefix_append t [c]))
    · exact hstops cs hcs hexposed
  refine ⟨ht, ?_⟩
  by_cases hend : Outside t ∧ (c = ';' ∨ c = '{')
  · exact .inr hend
  · refine .inl ⟨fun houtside ↦ ?_, fun hslash ↦ ?_⟩
    · refine ⟨?_, fun hc ↦ hend ⟨houtside, .inl hc⟩, fun hc ↦ hend ⟨houtside, .inr hc⟩⟩
      rintro rfl
      exact hinterrupts _ (by decide) (exposed_single_concat.2 (.inr ⟨houtside, rfl⟩))
    · have hbefore := exists_slash_of_readerAfter hslash
      constructor <;>
      · rintro rfl
        exact hinterrupts _ (by decide) (exposed_pair_concat.2 (.inr ⟨hbefore, rfl⟩))

/-! ## The lines of a text -/

theorem any_head?_skipBlanks (cs : List Char) : (skipBlanks cs).head?.any isBlank = false := by
  rw [Option.any_eq_false]
  intro c hc
  have hhead := List.head?_dropWhile_not isBlank cs
  rw [skipBlanks] at hc
  rwa [hc] at hhead

theorem exists_eq_trim (t : List Char) :
    ∃ blanks rest, (∀ b ∈ blanks, isBlank b = true) ∧ t = blanks ++ (trim t ++ rest) := by
  obtain ⟨rest, hrest⟩ := trim_isPrefix t
  refine ⟨t.takeWhile isBlank, rest, ?_, ?_⟩
  · exact List.all_eq_true.1 List.all_takeWhile
  · rw [hrest]
    exact List.takeWhile_append_dropWhile.symm

theorem OneStatement.of_append {blanks t rest : List Char}
    (h : OneStatement (blanks ++ (t ++ rest))) (hblanks : ∀ b ∈ blanks, isBlank b = true)
    (hne : t ≠ []) : OneStatement t := by
  have hdrop : blanks ++ t.dropLast <+: (blanks ++ (t ++ rest)).dropLast := by
    rw [List.dropLast_append_of_ne_nil (by simp [hne]), List.prefix_append_right_inj]
    cases rest using List.reverseRecOn with
    | nil => rw [List.append_nil]
    | append_singleton rest c =>
        rw [← List.append_assoc, List.dropLast_concat]
        exact t.dropLast_prefix.trans (List.prefix_append t rest)
  constructor
  · intro cs hcs hexposed
    have ht : blanks ++ t <+: blanks ++ (t ++ rest) := by simp
    exact h.1 cs hcs ((hexposed.blanks_append hblanks).of_isPrefix ht)
  · intro cs hcs hexposed
    exact h.2 cs hcs ((hexposed.blanks_append hblanks).of_isPrefix hdrop)

theorem isCanonical_trim {t : List Char} (h : OneStatement t) (hbreak : '\n' ∉ t)
    (hne : trim t ≠ []) : IsCanonical (trim t) := by
  obtain ⟨blanks, rest, hblanks, ht⟩ := exists_eq_trim t
  constructor
  · exact hne
  · obtain ⟨c, cs, hcs⟩ := List.exists_cons_of_ne_nil hne
    obtain ⟨more, hmore⟩ := trim_isPrefix t
    have hfirst := any_head?_skipBlanks t
    rw [← hmore, hcs] at hfirst
    rw [hcs]
    exact hfirst
  · rw [trim, List.getLast?_reverse]
    exact any_head?_skipBlanks _
  · intro hmem
    apply hbreak
    rw [ht]
    simp [hmem]
  · rw [ht] at h
    exact .inr (h.of_append hblanks hne)

theorem isCanonical_of_mem_lineOf? {t : List Char} (h : OneStatement t) (hbreak : '\n' ∉ t) {n : ℕ}
    {l : Line} (hl : l ∈ (lineOf? n t).toList) : IsCanonical l.text.toList := by
  simp only [lineOf?, Option.mem_toList, Option.ite_none_left_eq_some, Option.some.injEq,
    List.isEmpty_iff] at hl
  obtain ⟨hne, rfl⟩ := hl
  rw [String.toList_ofList]
  exact isCanonical_trim h hbreak hne

/-- What a reader of only those characters that are kept knows. -/
def Reader.reread : Reader → Reader
  | literal quote => literal quote
  | escape quote => escape quote
  | _ => code

theorem Reader.emit_cases_outside {σ : Reader} (hσ : σ.outside = true) {c : Char}
    (hbreak : c ≠ '\n') (hslash : c ≠ '/') (hstar : σ = slash → c ≠ '*') :
    (σ.GoesOn c ∧ σ.emit c = (σ.held ++ [c]).map .plain ∧ (σ.next c).reread = σ.next c) ∨
      (σ.next c = code ∧ (σ.emit c = σ.held.map .plain ++ [.close] ∨
        (c = ';' ∨ c = '{') ∧ σ.emit c = σ.held.map .plain ++ [.stop c])) := by
  obtain ⟨hemit, hnext⟩ := emit_outside hσ hbreak hslash hstar
  rw [hemit, hnext]
  by_cases hclose : c = '}'
  · subst hclose
    exact .inr ⟨rfl, .inl rfl⟩
  by_cases hstop : c = ';' ∨ c = '{'
  · right
    rcases hstop with rfl | rfl
    · exact ⟨rfl, .inr ⟨.inl rfl, rfl⟩⟩
    · exact ⟨rfl, .inr ⟨.inr rfl, rfl⟩⟩
  · left
    rw [not_or] at hstop
    refine ⟨⟨fun _ ↦ ⟨hclose, hstop⟩, fun h ↦ ⟨hslash, hstar h⟩⟩, ?_, ?_⟩
    · simp [Mark.ofCode, hclose, hstop]
    · rw [Reader.afterCode, if_neg hslash]
      split <;> rfl

/-- A character in a line is not kept, or the statement goes on with it, or it ends a statement. -/
theorem Reader.emit_cases (σ : Reader) {c : Char} (hbreak : c ≠ '\n') :
    (σ.emit c = [] ∧ (σ.next c).reread = σ.reread) ∨
      (σ.inComment = false ∧ σ.GoesOn c ∧ σ.emit c = (σ.held ++ [c]).map .plain ∧
        (σ.next c).reread = σ.next c) ∨
      (σ.next c = code ∧ (σ.emit c = σ.held.map .plain ++ [.close] ∨
        (c = ';' ∨ c = '{') ∧ σ.emit c = σ.held.map .plain ++ [.stop c])) := by
  cases σ with
  | code =>
      by_cases hslash : c = '/'
      · subst hslash
        exact .inl ⟨rfl, rfl⟩
      · have hcases := emit_cases_outside (rfl : code.outside = true) hbreak hslash (by simp)
        exact .inr (hcases.imp_left fun hgoes ↦ ⟨rfl, hgoes⟩)
  | slash =>
      by_cases hslash : c = '/'
      · subst hslash
        exact .inl ⟨rfl, rfl⟩
      by_cases hstar : c = '*'
      · subst hstar
        exact .inl ⟨rfl, rfl⟩
      · have hcases := emit_cases_outside (rfl : slash.outside = true) hbreak hslash fun _ ↦ hstar
        exact .inr (hcases.imp_left fun hgoes ↦ ⟨rfl, hgoes⟩)
  | literal quote =>
      refine .inr (.inl ⟨rfl, goesOn_of_inside rfl c, by simp [emit, held, hbreak], ?_⟩)
      grind [next, reread]
  | escape quote =>
      refine .inr (.inl ⟨rfl, goesOn_of_inside rfl c, by simp [emit, held, hbreak], ?_⟩)
      simp [next, reread, hbreak]
  | lineComment => exact .inl ⟨by simp [emit, hbreak], by simp [next, hbreak]⟩
  | blockComment =>
      refine .inl ⟨by simp [emit, hbreak], ?_⟩
      grind [next, reread]
  | star =>
      refine .inl ⟨by simp [emit, hbreak], ?_⟩
      grind [next, reread]

/-- The reader has read, since its line began, the given characters and perhaps comments. -/
structure Reading (σ : Reader) (t : List Char) : Prop where
  flowing : Flowing t
  unbroken : '\n' ∉ t
  reader : readerAfter t = σ.reread

theorem reading_nil {σ : Reader} (h : σ.reread = code) : Reading σ [] :=
  ⟨flowing_nil, List.not_mem_nil, h.symm⟩

namespace Reading

variable {σ : Reader} {t : List Char}

theorem flowing_held (h : Reading σ t) : Flowing (t ++ σ.held) := by
  cases σ with
  | slash =>
      refine flowing_concat.2 ⟨h.flowing, ?_⟩
      rw [h.reader]
      exact ⟨by decide, nofun⟩
  | _ => simpa [held] using h.flowing

theorem unbroken_held (h : Reading σ t) : '\n' ∉ t ++ σ.held := by
  cases σ <;> simp [held, h.unbroken]

theorem readerAfter_held (h : Reading σ t) (hσ : σ.inComment = false) :
    readerAfter (t ++ σ.held) = σ := by
  rw [readerAfter_append, h.reader]
  cases σ <;> first | rfl | exact nomatch hσ

/-- The reader keeps a character with which the statement goes on. -/
theorem push (h : Reading σ t) (hσ : σ.inComment = false) {c : Char} (hc : σ.GoesOn c)
    (hbreak : c ≠ '\n') (hnext : (σ.next c).reread = σ.next c) :
    Reading (σ.next c) (t ++ (σ.held ++ [c])) := by
  have hreader := h.readerAfter_held hσ
  rw [← List.append_assoc]
  constructor
  · rw [flowing_concat, hreader]
    exact ⟨h.flowing_held, hc⟩
  · simpa [hbreak.symm] using h.unbroken_held
  · rw [readerAfter_append, hreader, hnext]
    rfl

theorem silent (h : Reading σ t) {τ : Reader} (hτ : τ.reread = σ.reread) : Reading τ t :=
  ⟨h.flowing, h.unbroken, h.reader.trans hτ.symm⟩

end Reading

theorem linesOf_kept (n : ℕ) (t kept : List Char) (ms : List Mark) :
    linesOf n t.reverse (kept.map .plain ++ ms) = linesOf n (t ++ kept).reverse ms := by
  rw [linesOf_plain, List.reverse_append]

/-- The lines of a text are canonical, from wherever a line of it begins. -/
theorem isCanonical_of_mem_linesOf {σ : Reader} {t : List Char} (h : Reading σ t) (cs : List Char)
    {n : ℕ} {l : Line} (hl : l ∈ linesOf n t.reverse (σ.run cs)) : IsCanonical l.text.toList := by
  have hheld {σ : Reader} {t : List Char} (h : Reading σ t) {n : ℕ} {l : Line}
      (hl : l ∈ (lineOf? n (t ++ σ.held)).toList) : IsCanonical l.text.toList :=
    isCanonical_of_mem_lineOf? h.flowing_held.oneStatement h.unbroken_held hl
  induction cs generalizing σ t n with
  | nil =>
      rw [run, ← List.append_nil (σ.held.map _), linesOf_kept, linesOf, List.reverse_reverse] at hl
      exact hheld h hl
  | cons c cs ih =>
      -- A line is complete at the end of a statement or of a physical line; until then what has
      -- been kept of it grows.
      rw [run] at hl
      by_cases hbreak : c = '\n'
      · subst hbreak
        have hnext : (σ.next '\n').reread = code := by cases σ <;> rfl
        rw [emit_newline, List.append_assoc, linesOf_kept, List.singleton_append, linesOf,
          List.reverse_reverse, List.mem_append] at hl
        exact hl.elim (hheld h) (ih (reading_nil hnext))
      rcases σ.emit_cases hbreak with ⟨hemit, hsame⟩ | ⟨hσ, hgoes, hemit, hnext⟩ | ⟨hnext, hend⟩
      · rw [hemit] at hl
        exact ih (h.silent hsame) hl
      · rw [hemit, linesOf_kept] at hl
        exact ih (h.push hσ hgoes hbreak hnext) hl
      · have hrest : Reading (σ.next c) [] := reading_nil (by rw [hnext]; rfl)
        rcases hend with hemit | ⟨hstop, hemit⟩
        · rw [hemit, List.append_assoc, linesOf_kept, List.singleton_append, linesOf,
            List.reverse_reverse, List.mem_append, List.mem_cons] at hl
          rcases hl with hl | rfl | hl
          · exact hheld h hl
          · exact isCanonical_close
          · exact ih hrest hl
        · rw [hemit, List.append_assoc, linesOf_kept, List.singleton_append, linesOf,
            List.reverse_cons, List.reverse_reverse, List.mem_append] at hl
          rcases hl with hl | hl
          · have hline := h.flowing_held.oneStatement_concat hstop
            have hunbroken : '\n' ∉ t ++ σ.held ++ [c] := by
              simpa [Ne.symm hbreak] using h.unbroken_held
            exact isCanonical_of_mem_lineOf? hline hunbroken hl
          · exact ih hrest hl

theorem isCanonical_of_mem_normalize {text : String} {l : Line} (h : l ∈ normalize text) :
    IsCanonical l.text.toList := by
  rw [normalize, marks_code_eq_run] at h
  exact isCanonical_of_mem_linesOf (reading_nil rfl) _ h

/-! ## The text made of canonical lines -/

theorem skipBlanks_eq_self {t : List Char} (h : t.head?.any isBlank = false) :
    skipBlanks t = t := by
  cases t with
  | nil => rfl
  | cons c cs => exact skipBlanks_cons_of_false h

theorem IsCanonical.lineOf?_eq {t : List Char} (h : IsCanonical t) (n : ℕ) :
    lineOf? n t = some ⟨String.ofList t, n⟩ := by
  have hlast : t.reverse.head?.any isBlank = false := by
    rw [List.head?_reverse]
    exact h.last
  have htrim : trim t = t := by
    rw [trim, skipBlanks_eq_self h.first, skipBlanks_eq_self hlast, List.reverse_reverse]
  simp [lineOf?, htrim, h.ne_nil]

theorem Flowing.run_append_newline {t : List Char} (h : Flowing t) (hbreak : '\n' ∉ t)
    (rest : List Char) :
    code.run (t ++ '\n' :: rest) = t.map .plain ++ .newline :: code.run rest := by
  have hnext : (readerAfter t).nextLine = code := by
    have hcomment := h.inComment
    cases hreader : readerAfter t <;> rw [hreader] at hcomment <;>
      first | rfl | exact nomatch hcomment
  rw [← marks_code_eq_run, marks_code_append, run, emit_newline, next_newline, hnext,
    ← h.emitted_append_held hbreak, List.append_assoc, List.append_assoc, List.singleton_append]

theorem Flowing.run_append_stop {t : List Char} (h : Flowing t) (hbreak : '\n' ∉ t)
    (houtside : Outside t) {c : Char} (hc : c = ';' ∨ c = '{') (rest : List Char) :
    code.run (t ++ c :: rest) = t.map .plain ++ .stop c :: code.run rest := by
  have hstop : code.run (c :: rest) = .stop c :: code.run rest := by
    rcases hc with rfl | rfl <;> rfl
  obtain ⟨hslash, hstar⟩ : c ≠ '/' ∧ c ≠ '*' := by
    rcases hc with rfl | rfl <;> decide
  rw [← marks_code_eq_run, marks_code_append, run_of_outside houtside hslash hstar,
    ← List.append_assoc, h.emitted_append_held hbreak, hstop]

/-- A canonical line is a line of any text in which it stands alone. -/
theorem IsCanonical.linesOf_append_newline {t : List Char} (h : IsCanonical t) (n : ℕ)
    (rest : List Char) :
    linesOf n [] (code.run (t ++ '\n' :: rest)) =
      ⟨String.ofList t, n⟩ :: linesOf (n + 1) [] (code.run rest) := by
  rcases h.shape with rfl | hone
  · rfl
  obtain ⟨u, c, rfl⟩ := (List.eq_nil_or_concat' t).resolve_left h.ne_nil
  have hline := h.lineOf?_eq n
  have hunbroken : '\n' ∉ u := fun hmem ↦ h.unbroken (List.mem_append_left [c] hmem)
  obtain ⟨hu, hgoes | ⟨houtside, hstop⟩⟩ := hone.concat_cases
  · rw [(flowing_concat.2 ⟨hu, hgoes⟩).run_append_newline h.unbroken, linesOf_plain, linesOf,
      List.append_nil, List.reverse_reverse, hline]
    rfl
  · rw [List.append_assoc, List.singleton_append, hu.run_append_stop hunbroken houtside hstop,
      linesOf_plain, linesOf, List.append_nil, List.reverse_cons, List.reverse_reverse, hline,
      run_code_newline]
    rfl

/-- The last line of a text need not be ended. -/
theorem linesOf_append_newline (n : ℕ) (pending : List Char) (ms : List Mark) :
    linesOf n pending (ms ++ [.newline]) = linesOf n pending ms := by
  induction ms generalizing n pending with
  | nil => simp [linesOf, lineOf?_blanks]
  | cons m ms ih => cases m <;> simp [linesOf, ih]

theorem run_code_append_newline (cs : List Char) :
    code.run (cs ++ ['\n']) = code.run cs ++ [.newline] := by
  have hend (σ : Reader) : σ.nextLine.run [] = [] := by cases σ <;> rfl
  rw [run_append_newline, hend]

theorem linesOf_intercalate {texts : List String} (h : ∀ t ∈ texts, IsCanonical t.toList) (n : ℕ) :
    linesOf n [] (code.run (['\n'].intercalate (texts.map String.toList))) =
      (texts.zipIdx n).map fun (t, i) ↦ ⟨t, i⟩ := by
  induction texts generalizing n with
  | nil => rfl
  | cons t texts ih =>
      have hline := (h t List.mem_cons_self).linesOf_append_newline n
      have hrest := ih (fun u hu ↦ h u (List.mem_cons_of_mem t hu)) (n + 1)
      rw [String.ofList_toList] at hline
      cases texts with
      | nil =>
          rw [List.map_singleton, List.intercalate_singleton, ← linesOf_append_newline,
            ← run_code_append_newline, hline]
          rfl
      | cons u texts =>
          rw [List.map_cons, List.map_cons, List.intercalate_cons_cons, List.append_assoc,
            List.singleton_append, hline, ← List.map_cons, hrest]
          rfl

theorem normalize_intercalate {texts : List String} (h : ∀ t ∈ texts, IsCanonical t.toList) :
    normalize ("\n".intercalate texts) = (texts.zipIdx 1).map fun (t, i) ↦ ⟨t, i⟩ := by
  rw [normalize, marks_code_eq_run, String.toList_intercalate]
  exact linesOf_intercalate h 1

/-- Cutting a text into lines leads to canonical lines, and leaves these alone. -/
theorem normalize_retracts_onto_canonical :
    (∀ text : String, ∀ l ∈ normalize text, IsCanonical l.text.toList) ∧
    (∀ texts : List String, (∀ t ∈ texts, IsCanonical t.toList) →
      normalize ("\n".intercalate texts) = (texts.zipIdx 1).map fun (t, i) ↦ ⟨t, i⟩) ∧
    ∀ text : String,
      (normalize ("\n".intercalate ((normalize text).map (·.text)))).map (·.text) =
        (normalize text).map (·.text) := by
  refine ⟨fun text l ↦ isCanonical_of_mem_normalize, fun texts ↦ normalize_intercalate, ?_⟩
  intro text
  rw [normalize_intercalate, List.map_map]
  · exact List.zipIdx_map_fst 1 _
  · intro t ht
    obtain ⟨l, hl, rfl⟩ := List.mem_map.1 ht
    exact isCanonical_of_mem_normalize hl

/-- Braces, semicolons and slashes in a literal are part of their line, and so is a quote that opens
a literal without end. -/
def literalLines : List String :=
  ["message M \x7b", "string s = 1 [default = \"\x7d;//\"];", "\x7d", "a / 'b;"]

theorem normalize_retracts_onto_canonical_literalLines :
    normalize ("\n".intercalate literalLines) =
      [⟨"message M \x7b", 1⟩, ⟨"string s = 1 [default = \"\x7d;//\"];", 2⟩, ⟨"\x7d", 3⟩,
        ⟨"a / 'b;", 4⟩] :=
  normalize_retracts_onto_canonical.2.1 literalLines (by decide +kernel)

end ProtoHeader.Source

import Mathlib.Data.Option.Basic
import ProtoHeader.Proofs.Scanning

/-!
# Wider and narrower gaps

Where a line has blanks, it does not matter how many they are and which.  The grammars see a gap
only where they skip blanks or stop at the first of them, with two exceptions: the text between the
first two quotes of a line may be an edition or a path, and is taken as it stands.

A relation says that two texts differ in one gap at most, outside that part.  It is kept by every
scanner, so that all grammars read the same from both texts.
-/

namespace ProtoHeader

open Text Grammar

/-! ## Classes of characters without blanks -/

namespace Text

theorem inRanges_eq_false_of_apart {ranges others : List CharRange}
    (hapart : ∀ r ∈ ranges, ∀ b ∈ others, r.high < b.low ∨ b.high < r.low) {c : Char}
    (h : inRanges ranges c = true) : inRanges others c = false := by
  apply Bool.eq_false_iff.mpr
  intro hother
  obtain ⟨r, hr, hlow, hhigh⟩ := inRanges_eq_true_iff.mp h
  obtain ⟨b, hb, hblow, hbhigh⟩ := inRanges_eq_true_iff.mp hother
  have := hapart r hr b hb
  omega

theorem isWordChar_of_isBlank {c : Char} (h : isBlank c = true) : isWordChar c = false := by
  unfold isWordChar
  split
  · exact inRanges_eq_false_of_apart (by decide +kernel) h
  · exact inRanges_eq_false_of_apart (by decide +kernel) h

theorem isDecimalDigit_of_isBlank {c : Char} (h : isBlank c = true) : isDecimalDigit c = false :=
  inRanges_eq_false_of_apart (by decide +kernel) h

theorem isNameStart_of_isBlank {c : Char} (h : isBlank c = true) : isNameStart c = false :=
  inRanges_eq_false_of_apart (by decide +kernel) h

end Text

namespace Grammar

theorem isQuote_iff {c : Char} : isQuote c = true ↔ c = '"' ∨ c = '\'' := by
  simp [isQuote]

theorem isBlank_of_isQuote {c : Char} (h : isQuote c = true) : isBlank c = false := by
  rcases isQuote_iff.mp h with rfl | rfl <;> decide

theorem isQuote_of_isBlank {c : Char} (h : isBlank c = true) : isQuote c = false := by
  by_contra hquote
  rw [isBlank_of_isQuote (by simpa using hquote)] at h
  cases h

/-- The class holds neither blanks nor quotes, so that a run of it ends at either. -/
structure IsToken (p : Char → Bool) : Prop where
  blank : ∀ c, isBlank c = true → p c = false
  quote : ∀ c, isQuote c = true → p c = false

theorem isToken_isWordChar : IsToken isWordChar where
  blank _ := isWordChar_of_isBlank
  quote c hc := by rcases isQuote_iff.mp hc with rfl | rfl <;> decide

theorem isToken_isReferenceChar : IsToken isReferenceChar where
  blank c hc := by
    have hdot : c ≠ '.' := by
      rintro rfl
      exact absurd hc (by decide)
    simp [isReferenceChar, isWordChar_of_isBlank hc, hdot]
  quote c hc := by rcases isQuote_iff.mp hc with rfl | rfl <;> decide

theorem isToken_isDecimalDigit : IsToken isDecimalDigit where
  blank _ := isDecimalDigit_of_isBlank
  quote c hc := by rcases isQuote_iff.mp hc with rfl | rfl <;> decide

/-! ## Texts that differ in one gap -/

structure IsGap (gap : List Char) : Prop where
  ne_nil : gap ≠ []
  blank : ∀ c ∈ gap, isBlank c = true

def quotesAfter (quotes : ℕ) (c : Char) : ℕ :=
  if isQuote c then quotes + 1 else quotes

/-- The texts differ in one gap at most, where each has blanks.  Counting the given number of
quotes in front of the texts, the gap does not stand between the first two quotes. -/
inductive Respaced : ℕ → List Char → List Char → Prop
  | same (quotes : ℕ) (cs : List Char) : Respaced quotes cs cs
  | gap {quotes : ℕ} {gap gap' : List Char} (outside : quotes ≠ 1) (first : IsGap gap)
      (second : IsGap gap') (rest : List Char) : Respaced quotes (gap ++ rest) (gap' ++ rest)
  | cons {quotes : ℕ} {cs cs' : List Char} (c : Char)
      (tail : Respaced (quotesAfter quotes c) cs cs') : Respaced quotes (c :: cs) (c :: cs')

theorem quotesAfter_eq (quotes : ℕ) (c : Char) :
    quotesAfter quotes c = quotes + if isQuote c then 1 else 0 := by
  unfold quotesAfter
  split <;> rfl

theorem le_quotesAfter (quotes : ℕ) (c : Char) : quotes ≤ quotesAfter quotes c := by
  rw [quotesAfter_eq]
  exact Nat.le_add_right _ _

theorem IsGap.exists_cons {gap : List Char} (h : IsGap gap) :
    ∃ c rest, gap = c :: rest ∧ isBlank c = true := by
  cases gap with
  | nil => exact absurd rfl h.ne_nil
  | cons c rest => exact ⟨c, rest, rfl, h.blank c List.mem_cons_self⟩

theorem IsGap.skipBlanks_append {gap : List Char} (h : IsGap gap) (rest : List Char) :
    skipBlanks (gap ++ rest) = skipBlanks rest :=
  List.dropWhile_append_of_pos h.blank

theorem quotesAfter_of_blank {c : Char} (h : isBlank c = true) (quotes : ℕ) :
    quotesAfter quotes c = quotes := by
  simp [quotesAfter, isQuote_of_isBlank h]

theorem IsToken.quotesAfter {p : Char → Bool} (hp : IsToken p) {c : Char} (hc : p c = true)
    (quotes : ℕ) : quotesAfter quotes c = quotes := by
  have hquote : isQuote c = false := by
    by_contra h
    rw [hp.quote c (by simpa using h)] at hc
    cases hc
  simp [Grammar.quotesAfter, hquote]

namespace Respaced

variable {quotes quotes' : ℕ} {cs cs' : List Char} {p : Char → Bool}

theorem append {gap gap' : List Char} (hgap : IsGap gap) (hgap' : IsGap gap') (rest : List Char)
    {before : List Char} (h : quotes + before.countP isQuote ≠ 1) :
    Respaced quotes (before ++ (gap ++ rest)) (before ++ (gap' ++ rest)) := by
  induction before generalizing quotes with
  | nil => exact .gap h hgap hgap' rest
  | cons c before ih =>
      refine .cons c (ih ?_)
      rw [List.countP_cons] at h
      rwa [quotesAfter_eq, Nat.add_assoc, Nat.add_comm _ (before.countP isQuote)]

/-- After the second quote the gap may stand anywhere. -/
theorem settled (h : Respaced quotes cs cs') (hquotes : 2 ≤ quotes') :
    Respaced quotes' cs cs' := by
  induction h generalizing quotes' with
  | same _ cs => exact .same quotes' cs
  | gap _ first second rest => exact .gap (by omega) first second rest
  | cons c _ ih => exact .cons c (ih (Nat.le_trans hquotes (le_quotesAfter _ c)))

theorem skipBlanks (h : Respaced quotes cs cs') :
    Respaced quotes (skipBlanks cs) (skipBlanks cs') := by
  induction h with
  | same quotes cs => exact .same quotes _
  | gap _ first second rest =>
      rw [first.skipBlanks_append, second.skipBlanks_append]
      exact .same _ _
  | @cons quotes cs cs' c tail ih =>
      by_cases hc : isBlank c = true
      · rw [quotesAfter_of_blank hc] at ih
        simpa [Text.skipBlanks, hc] using ih
      · rw [skipBlanks_cons_of_false (by simpa using hc),
          skipBlanks_cons_of_false (by simpa using hc)]
        exact .cons c tail

theorem takeWhile_eq (h : Respaced quotes cs cs') (hp : ∀ c, isBlank c = true → p c = false) :
    cs.takeWhile p = cs'.takeWhile p := by
  induction h with
  | same => rfl
  | gap _ first second rest =>
      obtain ⟨b, gap, rfl, hb⟩ := first.exists_cons
      obtain ⟨b', gap', rfl, hb'⟩ := second.exists_cons
      simp [hp b hb, hp b' hb']
  | cons c _ ih => simp [List.takeWhile_cons, ih]

theorem dropWhile (h : Respaced quotes cs cs') (hp : IsToken p) :
    Respaced quotes (cs.dropWhile p) (cs'.dropWhile p) := by
  induction h with
  | same quotes cs => exact .same quotes _
  | gap outside first second rest =>
      obtain ⟨b, gap, rfl, hb⟩ := first.exists_cons
      obtain ⟨b', gap', rfl, hb'⟩ := second.exists_cons
      simpa [hp.blank b hb, hp.blank b' hb'] using Respaced.gap outside first second rest
  | @cons quotes cs cs' c tail ih =>
      by_cases hc : p c = true
      · rw [hp.quotesAfter hc] at ih
        simpa [hc] using ih
      · simpa [hc] using Respaced.cons c tail

/-- After the second quote a run may go on over blanks and quotes. -/
theorem dropWhile_settled (h : Respaced quotes cs cs') (hquotes : 2 ≤ quotes)
    (hp : ∀ c, isBlank c = true → p c = true) :
    Respaced quotes (cs.dropWhile p) (cs'.dropWhile p) := by
  induction h with
  | same quotes cs => exact .same quotes _
  | gap _ first second rest =>
      rw [List.dropWhile_append_of_pos fun c hc ↦ hp c (first.blank c hc),
        List.dropWhile_append_of_pos fun c hc ↦ hp c (second.blank c hc)]
      exact .same _ _
  | @cons quotes cs cs' c tail ih =>
      by_cases hc : p c = true
      · have htail := ih (Nat.le_trans hquotes (le_quotesAfter quotes c))
        simpa [hc] using htail.settled hquotes
      · simpa [hc] using Respaced.cons c tail

/-- The text up to the second quote is the same in both. -/
theorem takeWhile_quoted (h : Respaced 1 cs cs') :
    cs.takeWhile (!isQuote ·) = cs'.takeWhile (!isQuote ·) ∧
      Respaced 1 (cs.dropWhile (!isQuote ·)) (cs'.dropWhile (!isQuote ·)) := by
  generalize hquotes : 1 = quotes at h
  induction h with
  | same quotes cs => exact ⟨rfl, .same _ _⟩
  | gap outside => exact absurd hquotes.symm outside
  | @cons quotes cs cs' c tail ih =>
      by_cases hc : isQuote c = true
      · simpa [hc] using Respaced.cons c tail
      · have hsame : quotesAfter quotes c = quotes := by simp [quotesAfter, hc]
        rw [hsame] at ih
        simpa [hc] using ih hquotes

end Respaced

/-! ## Scanners -/

theorem bind_rel {α β γ δ : Type} {R : α → β → Prop} {S : γ → δ → Prop} {x : Option α}
    {y : Option β} {f : α → Option γ} {g : β → Option δ} (h : Option.Rel R x y)
    (hfg : ∀ a b, R a b → Option.Rel S (f a) (g b)) : Option.Rel S (x.bind f) (y.bind g) := by
  cases h with
  | none => exact .none
  | some hab => exact hfg _ _ hab

theorem bind_eq_of_rel {α β γ : Type} {R : α → β → Prop} {x : Option α} {y : Option β}
    {f : α → Option γ} {g : β → Option γ} (h : Option.Rel R x y)
    (hfg : ∀ a b, R a b → f a = g b) : x.bind f = y.bind g := by
  cases h with
  | none => rfl
  | some hab => exact hfg _ _ hab

/-- The same was read, and the texts that are left differ in one gap at most. -/
def ReadAlike {α : Type} (quotes : ℕ) (r r' : α × List Char) : Prop :=
  r.1 = r'.1 ∧ Respaced quotes r.2 r'.2

namespace Respaced

variable {quotes : ℕ} {cs cs' : List Char}

theorem rel_same (quotes : ℕ) (x : Option (List Char)) : Option.Rel (Respaced quotes) x x := by
  cases x with
  | none => exact .none
  | some cs => exact .some (.same quotes cs)

/-- Two such texts are the same, or start with different blanks of a gap, or with the same
character. -/
theorem start_cases (h : Respaced quotes cs cs') :
    cs = cs' ∨
      (∃ b ds b' ds', cs = b :: ds ∧ cs' = b' :: ds' ∧ isBlank b = true ∧ isBlank b' = true ∧
        Text.skipBlanks ds = Text.skipBlanks ds') ∨
      ∃ c ds ds', cs = c :: ds ∧ cs' = c :: ds' ∧ Respaced (quotesAfter quotes c) ds ds' := by
  cases h with
  | same => exact .inl rfl
  | gap outside first second rest =>
      have hskip := (first.skipBlanks_append rest).trans (second.skipBlanks_append rest).symm
      obtain ⟨b, ds, rfl, hb⟩ := first.exists_cons
      obtain ⟨b', ds', rfl, hb'⟩ := second.exists_cons
      simp only [List.cons_append, Text.skipBlanks, List.dropWhile_cons, hb, hb'] at hskip
      exact .inr (.inl ⟨b, ds ++ rest, b', ds' ++ rest, rfl, rfl, hb, hb', hskip⟩)
  | cons c tail => exact .inr (.inr ⟨c, _, _, rfl, rfl, tail⟩)

theorem ne_of_isBlank {w b : Char} (hw : isBlank w = false) (hb : isBlank b = true) : b ≠ w := by
  rintro rfl
  exact Bool.false_ne_true (hw.symm.trans hb)

theorem after? (h : Respaced quotes cs cs') (word : List Char)
    (hword : ∀ w ∈ word, isBlank w = false ∧ isQuote w = false) :
    Option.Rel (Respaced quotes) (after? word cs) (after? word cs') := by
  induction word generalizing cs cs' with
  | nil => exact .some h
  | cons w ws ih =>
      obtain ⟨⟨hblank, hquote⟩, hws⟩ := List.forall_mem_cons.mp hword
      obtain rfl | ⟨b, ds, b', ds', rfl, rfl, hb, hb', -⟩ | ⟨c, ds, ds', rfl, rfl, htail⟩ :=
        h.start_cases
      · exact rel_same quotes _
      · simp [Grammar.after?, (ne_of_isBlank hblank hb).symm, (ne_of_isBlank hblank hb').symm]
      · by_cases hc : w = c
        · subst hc
          have hsame : quotesAfter quotes w = quotes := by simp [quotesAfter, hquote]
          rw [hsame] at htail
          simpa [Grammar.after?] using ih htail hws
        · simp [Grammar.after?, hc]

theorem afterBlanks? (h : Respaced quotes cs cs') :
    Option.Rel (Respaced quotes) (afterBlanks? cs) (afterBlanks? cs') := by
  obtain rfl | ⟨b, ds, b', ds', rfl, rfl, hb, hb', hskip⟩ | ⟨c, ds, ds', rfl, rfl, htail⟩ :=
    h.start_cases
  · exact rel_same quotes _
  · simpa [Grammar.afterBlanks?, hb, hb', hskip] using Respaced.same quotes (Text.skipBlanks ds')
  · by_cases hc : isBlank c = true
    · rw [quotesAfter_of_blank hc] at htail
      simpa [Grammar.afterBlanks?, hc] using htail.skipBlanks
    · simp [Grammar.afterBlanks?, hc]

theorem afterChar? (h : Respaced quotes cs cs') (mark : Char) (hblank : isBlank mark = false)
    (hquote : isQuote mark = false) :
    Option.Rel (Respaced quotes) (afterChar? mark cs) (afterChar? mark cs') := by
  unfold Grammar.afterChar?
  obtain heq | ⟨b, ds, b', ds', heq, heq', hb, hb', -⟩ | ⟨c, ds, ds', heq, heq', htail⟩ :=
    h.skipBlanks.start_cases
  · rw [heq]
    exact rel_same quotes _
  · simp [heq, heq', ne_of_isBlank hblank hb, ne_of_isBlank hblank hb']
  · rw [heq, heq']
    by_cases hc : c = mark
    · subst hc
      have hsame : quotesAfter quotes c = quotes := by simp [quotesAfter, hquote]
      rw [hsame] at htail
      simpa using htail
    · simp [hc]

theorem afterQuote? (h : Respaced quotes cs cs') :
    Option.Rel (Respaced (quotes + 1)) (afterQuote? cs) (afterQuote? cs') := by
  obtain rfl | ⟨b, ds, b', ds', rfl, rfl, hb, hb', -⟩ | ⟨c, ds, ds', rfl, rfl, htail⟩ :=
    h.start_cases
  · exact rel_same _ _
  · simp [Grammar.afterQuote?, isQuote_of_isBlank hb, isQuote_of_isBlank hb']
  · by_cases hc : isQuote c = true
    · simpa [Grammar.afterQuote?, hc, quotesAfter] using htail
    · simp [Grammar.afterQuote?, hc]

theorem name? (h : Respaced quotes cs cs') :
    Option.Rel (ReadAlike quotes) (name? cs) (name? cs') := by
  obtain rfl | ⟨b, ds, b', ds', rfl, rfl, hb, hb', -⟩ | ⟨c, ds, ds', rfl, rfl, htail⟩ :=
    h.start_cases
  · cases Grammar.name? cs with
    | none => exact .none
    | some read => exact .some ⟨rfl, .same _ _⟩
  · simp [Grammar.name?, isNameStart_of_isBlank hb, isNameStart_of_isBlank hb']
  · by_cases hc : isNameStart c = true
    · rw [isToken_isWordChar.quotesAfter (isWordChar_of_isNameStart hc)] at htail
      have htake := htail.takeWhile_eq isToken_isWordChar.blank
      simpa [Grammar.name?, hc, ReadAlike, htake] using htail.dropWhile isToken_isWordChar
    · simp [Grammar.name?, hc]

/-- The options of a field are skipped whatever blanks they have. -/
theorem afterOptions? (h : Respaced quotes cs cs') (hquotes : 2 ≤ quotes) :
    Option.Rel (Respaced quotes) (afterOptions? cs) (afterOptions? cs') := by
  have hother {ds : List Char} (hds : ds.head? ≠ some '[') :
      Grammar.afterOptions? ds = some ds := by
    unfold Grammar.afterOptions?
    split <;> simp_all
  have hbracket : isBlank '[' = false := by decide
  obtain rfl | ⟨b, ds, b', ds', rfl, rfl, hb, hb', -⟩ | ⟨c, ds, ds', rfl, rfl, htail⟩ :=
    h.start_cases
  · exact rel_same quotes _
  · rw [hother (by simpa using ne_of_isBlank hbracket hb),
      hother (by simpa using ne_of_isBlank hbracket hb')]
    exact .some h
  · by_cases hc : c = '['
    · subst hc
      have hdrop := (htail.settled hquotes).dropWhile_settled hquotes
        (p := fun c ↦ decide (c ≠ ']')) fun c hc ↦ by
          simpa using ne_of_isBlank (w := ']') (by decide) hc
      unfold Grammar.afterOptions?
      -- what is left starts with the closing bracket, hence not with a blank
      obtain heq | ⟨b, es, b', es', heq, -, hb, -⟩ | ⟨c, es, es', heq, heq', hrest⟩ :=
        hdrop.start_cases
      · simp only [heq]
        exact rel_same quotes _
      · have hhead := List.head?_dropWhile_not (fun c ↦ decide (c ≠ ']')) ds
        rw [heq] at hhead
        obtain rfl : b = ']' := by simpa using hhead
        exact absurd hb (by decide)
      · simp only [heq, heq']
        exact .some (hrest.settled hquotes)
    · rw [hother (by simpa using hc), hother (by simpa using hc)]
      exact .some h

end Respaced

/-! ## Grammars -/

namespace Respaced

variable {quotes : ℕ} {cs cs' : List Char}

theorem numbered? (h : Respaced quotes cs cs') :
    Option.Rel (ReadAlike quotes) (numbered? cs) (numbered? cs') := by
  have hsecond := h.after? "proto2".toList (forall_mem_of_all (by decide))
  have hthird := h.after? "proto3".toList (forall_mem_of_all (by decide))
  unfold Grammar.numbered?
  generalize Grammar.after? "proto2".toList cs = x at hsecond
  generalize Grammar.after? "proto2".toList cs' = x' at hsecond
  generalize Grammar.after? "proto3".toList cs = y at hthird
  generalize Grammar.after? "proto3".toList cs' = y' at hthird
  rcases hsecond with hrest | _
  · exact .some ⟨rfl, hrest⟩
  · rcases hthird with hrest | _
    · exact .some ⟨rfl, hrest⟩
    · exact .none

theorem syntaxStatement?_eq (h : Respaced 0 cs cs') :
    syntaxStatement? cs = syntaxStatement? cs' := by
  unfold syntaxStatement?
  refine bind_eq_of_rel (h.after? _ (forall_mem_of_all (by decide))) fun cs cs' h ↦ ?_
  refine bind_eq_of_rel (h.afterChar? _ (by decide) (by decide)) fun cs cs' h ↦ ?_
  refine bind_eq_of_rel h.skipBlanks.afterQuote? fun cs cs' h ↦ ?_
  refine bind_eq_of_rel h.numbered? ?_
  rintro ⟨version, cs⟩ ⟨_, cs'⟩ ⟨rfl, h⟩
  refine bind_eq_of_rel h.afterQuote? fun cs cs' h ↦ ?_
  exact bind_eq_of_rel (h.afterChar? _ (by decide) (by decide)) fun _ _ _ ↦ rfl

theorem editionStatement?_eq (h : Respaced 0 cs cs') :
    editionStatement? cs = editionStatement? cs' := by
  unfold editionStatement?
  refine bind_eq_of_rel (h.after? _ (forall_mem_of_all (by decide))) fun cs cs' h ↦ ?_
  refine bind_eq_of_rel (h.afterChar? _ (by decide) (by decide)) fun cs cs' h ↦ ?_
  refine bind_eq_of_rel h.skipBlanks.afterQuote? fun cs cs' h ↦ ?_
  obtain ⟨hyear, hrest⟩ := h.takeWhile_quoted
  refine bind_eq_of_rel hrest.afterQuote? fun cs cs' h ↦ ?_
  refine bind_eq_of_rel (h.afterChar? _ (by decide) (by decide)) fun _ _ _ ↦ ?_
  rw [hyear]

theorem version?_eq (h : Respaced 0 cs cs') : version? cs = version? cs' := by
  rw [version?, version?, h.syntaxStatement?_eq, h.editionStatement?_eq]

theorem package?_eq (h : Respaced quotes cs cs') : package? cs = package? cs' := by
  unfold package?
  refine bind_eq_of_rel (h.after? _ (forall_mem_of_all (by decide))) fun cs cs' h ↦ ?_
  refine bind_eq_of_rel h.afterBlanks? fun cs cs' h ↦ ?_
  have htake := h.takeWhile_eq isToken_isReferenceChar.blank
  have hsemicolon := (h.dropWhile isToken_isReferenceChar).afterChar? ';' (by decide)
    (by decide)
  obtain rfl | ⟨b, ds, b', ds', rfl, rfl, hb, hb', -⟩ | ⟨c, ds, ds', rfl, rfl, -⟩ := h.start_cases
  · rfl
  · simp only [List.head?_cons, Option.bind_eq_bind, Option.bind_some, isNameStart_of_isBlank hb,
      isNameStart_of_isBlank hb']
    rfl
  · simp only [List.head?_cons]
    refine Option.bind_congr fun _ _ ↦ Option.bind_congr fun _ _ ↦ ?_
    refine bind_eq_of_rel hsemicolon fun _ _ _ ↦ ?_
    exact congrArg (fun name ↦ some (String.ofList name)) htake

theorem afterModifier (h : Respaced quotes cs cs') :
    Respaced quotes (afterModifier cs) (afterModifier cs') := by
  have hword (word : List Char) (hword : ∀ w ∈ word, isBlank w = false ∧ isQuote w = false) :
      Option.Rel (Respaced quotes) ((Grammar.after? word cs).bind Grammar.afterBlanks?)
        ((Grammar.after? word cs').bind Grammar.afterBlanks?) :=
    bind_rel (h.after? _ hword) fun _ _ h ↦ h.afterBlanks?
  have hpublic := hword "public".toList (forall_mem_of_all (by decide))
  have hweak := hword "weak".toList (forall_mem_of_all (by decide))
  unfold Grammar.afterModifier
  simp only
  generalize (Grammar.after? "public".toList cs).bind Grammar.afterBlanks? = x at hpublic
  generalize (Grammar.after? "public".toList cs').bind Grammar.afterBlanks? = x' at hpublic
  generalize (Grammar.after? "weak".toList cs).bind Grammar.afterBlanks? = y at hweak
  generalize (Grammar.after? "weak".toList cs').bind Grammar.afterBlanks? = y' at hweak
  rcases hpublic with hrest | _
  · exact hrest
  · rcases hweak with hrest | _
    · exact hrest
    · exact h

theorem import?_eq (h : Respaced 0 cs cs') : import? cs = import? cs' := by
  unfold import?
  refine bind_eq_of_rel (h.after? _ (forall_mem_of_all (by decide))) fun cs cs' h ↦ ?_
  refine bind_eq_of_rel h.afterBlanks? fun cs cs' h ↦ ?_
  refine bind_eq_of_rel h.afterModifier.afterQuote? fun cs cs' h ↦ ?_
  obtain ⟨hpath, hrest⟩ := h.takeWhile_quoted
  simp only [hpath]
  refine Option.bind_congr fun _ _ ↦ ?_
  refine bind_eq_of_rel hrest.afterQuote? fun cs cs' h ↦ ?_
  exact bind_eq_of_rel (h.afterChar? _ (by decide) (by decide)) fun _ _ _ ↦ rfl

theorem declaredName?_eq {keyword : String}
    (hword : ∀ w ∈ keyword.toList, isBlank w = false ∧ isQuote w = false)
    (h : Respaced quotes cs cs') : declaredName? keyword cs = declaredName? keyword cs' := by
  unfold declaredName?
  refine bind_eq_of_rel (h.after? _ hword) fun cs cs' h ↦ ?_
  refine bind_eq_of_rel h.afterBlanks? fun cs cs' h ↦ ?_
  refine bind_eq_of_rel h.name? ?_
  rintro ⟨name, cs⟩ ⟨_, cs'⟩ ⟨rfl, -⟩
  rfl

theorem unlabelled?_eq (label : Option Label) (h : Respaced 2 cs cs') :
    unlabelled? label cs = unlabelled? label cs' := by
  unfold unlabelled?
  have htype := h.takeWhile_eq isToken_isReferenceChar.blank
  simp only [htype]
  refine Option.bind_congr fun _ _ ↦ ?_
  refine bind_eq_of_rel (h.dropWhile isToken_isReferenceChar).afterBlanks? fun cs cs' h ↦ ?_
  refine bind_eq_of_rel h.name? ?_
  rintro ⟨name, cs⟩ ⟨_, cs'⟩ ⟨rfl, h⟩
  refine bind_eq_of_rel (h.afterChar? _ (by decide) (by decide)) fun cs cs' h ↦ ?_
  have hdigits := h.skipBlanks.takeWhile_eq isToken_isDecimalDigit.blank
  have hrest := (h.skipBlanks.dropWhile isToken_isDecimalDigit).skipBlanks
  simp only [hdigits]
  refine Option.bind_congr fun _ _ ↦ ?_
  refine bind_eq_of_rel (hrest.afterOptions? (Nat.le_refl 2)) fun cs cs' h ↦ ?_
  exact bind_eq_of_rel (h.afterChar? _ (by decide) (by decide)) fun _ _ _ ↦ rfl

theorem labelled?_eq (label : Label) (h : Respaced 2 cs cs') :
    labelled? label cs = labelled? label cs' := by
  have hword : ∀ w ∈ label.word.toList, isBlank w = false ∧ isQuote w = false := by
    cases label <;> exact forall_mem_of_all (by decide)
  unfold labelled?
  refine bind_eq_of_rel (h.after? _ hword) fun cs cs' h ↦ ?_
  exact bind_eq_of_rel h.afterBlanks? fun cs cs' h ↦ h.unlabelled?_eq (some label)

theorem fieldParts?_eq (h : Respaced quotes cs cs') : fieldParts? cs = fieldParts? cs' := by
  have hsettled := h.settled (Nat.le_refl 2)
  rw [fieldParts?, fieldParts?, hsettled.labelled?_eq, hsettled.labelled?_eq,
    hsettled.unlabelled?_eq]

theorem enumeratorParts?_eq (h : Respaced quotes cs cs') :
    enumeratorParts? cs = enumeratorParts? cs' := by
  unfold enumeratorParts?
  refine bind_eq_of_rel h.name? ?_
  rintro ⟨name, cs⟩ ⟨_, cs'⟩ ⟨rfl, h⟩
  refine bind_eq_of_rel (h.afterChar? _ (by decide) (by decide)) fun cs cs' h ↦ ?_
  have hvalue := h.skipBlanks.takeWhile_eq
    (p := fun c ↦ !isBlank c && c != ';' && c != '[') fun c hc ↦ by simp [hc]
  simp only [hvalue]

theorem firstWord_eq (h : Respaced quotes cs cs') : firstWord cs = firstWord cs' :=
  h.skipBlanks.takeWhile_eq fun c hc ↦ by simp [hc]

theorem head?_eq_close_iff (h : Respaced quotes cs cs') :
    cs.head? = some '}' ↔ cs'.head? = some '}' := by
  obtain rfl | ⟨b, ds, b', ds', rfl, rfl, hb, hb', -⟩ | ⟨c, ds, ds', rfl, rfl, -⟩ := h.start_cases
  · rfl
  · have hclose : isBlank '}' = false := by decide
    simp [ne_of_isBlank hclose hb, ne_of_isBlank hclose hb']
  · rfl

end Respaced

end Grammar

end ProtoHeader

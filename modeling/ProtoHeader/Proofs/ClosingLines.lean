import Mathlib.Data.Nat.Notation
import ProtoHeader.Proofs.NormalizedText

/-!
# Closing lines

Among the lines of a text, one that starts with a closing brace is nothing but that brace.  A brace
inside a literal never comes first, since the quote that opens the literal stands before it on the
same line.
-/

namespace ProtoHeader.Source

open Text

/-! ## The first character of a line -/

/-- The first character that is not blank among those read of a line, last one first. -/
def lead (pending : List Char) : Option Char :=
  (skipBlanks pending.reverse).head?

theorem lead_nil : lead [] = none := rfl

theorem lead_cons (c : Char) (pending : List Char) :
    lead (c :: pending) =
      (lead pending).or (if isBlank c then none else some c) := by
  unfold lead skipBlanks
  rw [List.reverse_cons]
  induction pending.reverse with
  | nil => by_cases hc : isBlank c = true <;> simp [hc]
  | cons d ds ih =>
      by_cases hd : isBlank d = true
      · simpa [hd] using ih
      · simp [hd]

theorem lead_cons_of_some {c d : Char} {pending : List Char} (h : lead pending = some d) :
    lead (c :: pending) = some d := by
  simp [lead_cons, h]

theorem trim_isPrefix (cs : List Char) : trim cs <+: skipBlanks cs := by
  have hsuffix := List.dropWhile_suffix (l := (skipBlanks cs).reverse) isBlank
  have hreverse := List.reverse_prefix.2 hsuffix
  rwa [List.reverse_reverse] at hreverse

theorem lead_of_closes {n : ℕ} {pending : List Char} {l : Line}
    (h : l ∈ lineOf? n pending.reverse) (hcloses : l.closes = true) : lead pending = some '}' := by
  simp only [lineOf?, Option.mem_def, Option.ite_none_left_eq_some, Option.some.injEq] at h
  obtain ⟨-, rfl⟩ := h
  have hhead : (trim pending.reverse).head? = some '}' := by simpa [Line.closes] using hcloses
  obtain ⟨ds, hds⟩ := List.head?_eq_some_iff.1 hhead
  obtain ⟨rest, hrest⟩ := trim_isPrefix pending.reverse
  rw [lead, ← hrest, hds]
  rfl

/-! ## The invariant -/

/-- No closing brace comes first, and inside a literal something has come first. -/
structure LeadOk (mode : Mode) (pending : List Char) : Prop where
  ne_close : lead pending ≠ some '}'
  literal : ∀ quote, mode = .literal quote → lead pending ≠ none

theorem leadOk_nil {mode : Mode} (h : ∀ quote, mode ≠ .literal quote) : LeadOk mode [] :=
  ⟨by simp [lead_nil], fun quote hmode ↦ absurd hmode (h quote)⟩

theorem LeadOk.code {mode : Mode} {pending : List Char} (h : LeadOk mode pending) :
    LeadOk .code pending :=
  ⟨h.ne_close, by simp⟩

theorem LeadOk.push {mode : Mode} {pending : List Char} (h : LeadOk mode pending) {c : Char}
    (hc : c ≠ '}' ∨ lead pending ≠ none) {next : Mode}
    (hnext : ∀ quote, next = .literal quote → isBlank c = false ∨ lead pending ≠ none) :
    LeadOk next (c :: pending) := by
  cases hlead : lead pending with
  | some d =>
      have hsame := lead_cons_of_some (c := c) hlead
      refine ⟨?_, fun _ _ ↦ by simp [hsame]⟩
      rw [hsame, ← hlead]
      exact h.ne_close
  | none =>
      have hbrace : c ≠ '}' := by simpa [hlead] using hc
      refine ⟨by simp [lead_cons, hlead, hbrace], fun quote hquote ↦ ?_⟩
      have hblank : isBlank c = false := by simpa [hlead] using hnext quote hquote
      simp [lead_cons, hlead, hblank]

/-- Every line that starts with a closing brace is that brace. -/
def OnlyBraces (lines : List Line) : Prop :=
  ∀ l ∈ lines, l.closes = true → l.text = "\x7d"

theorem onlyBraces_append {first second : List Line} (hfirst : OnlyBraces first)
    (hsecond : OnlyBraces second) : OnlyBraces (first ++ second) := by
  intro l hl
  rcases List.mem_append.1 hl with hl | hl
  · exact hfirst l hl
  · exact hsecond l hl

theorem onlyBraces_lineOf? {mode : Mode} {pending : List Char} (h : LeadOk mode pending) (n : ℕ) :
    OnlyBraces (lineOf? n pending.reverse).toList := by
  intro l hl hcloses
  have hlead := lead_of_closes (Option.mem_toList.1 hl) hcloses
  exact absurd hlead h.ne_close

theorem onlyBraces_ofCode {c : Char} {pending : List Char} (h : LeadOk .code pending) (n : ℕ)
    {ms : List Mark}
    (hrest : ∀ n pending, LeadOk (.afterCode c) pending → OnlyBraces (linesOf n pending ms)) :
    OnlyBraces (linesOf n pending (.ofCode c :: ms)) := by
  by_cases hclose : c = '}'
  · subst hclose
    apply onlyBraces_append (onlyBraces_lineOf? h n)
    have htail := hrest n [] (leadOk_nil (by simp [Mode.afterCode]))
    intro l hl hcloses
    rcases List.mem_cons.1 hl with rfl | hl
    · rfl
    · exact htail l hl hcloses
  by_cases hstop : c = ';' ∨ c = '{'
  · have hmark : Mark.ofCode c = .stop c := by simp [Mark.ofCode, hclose, hstop]
    have hafter : Mode.afterCode c = .code := by rcases hstop with rfl | rfl <;> rfl
    have hpush : LeadOk .code (c :: pending) := h.push (.inl hclose) (by simp)
    rw [hmark]
    apply onlyBraces_append (onlyBraces_lineOf? hpush n)
    apply hrest
    rw [hafter]
    exact leadOk_nil (by simp)
  · have hmark : Mark.ofCode c = .plain c := by simp [Mark.ofCode, hclose, hstop]
    rw [hmark]
    apply hrest
    apply h.push (.inl hclose)
    intro quote hquote
    have hquotes : c = '"' ∨ c = '\'' := by
      apply Decidable.byContradiction
      intro hnot
      simp [Mode.afterCode, hnot] at hquote
    rcases hquotes with rfl | rfl <;> exact .inl (by decide)

theorem onlyBraces_linesOf (mode : Mode) (cs : List Char) :
    ∀ (n : ℕ) (pending : List Char), LeadOk mode pending →
      OnlyBraces (linesOf n pending (marks mode cs)) := by
  fun_induction marks mode cs with
  | case1 => exact fun n _ h ↦ onlyBraces_lineOf? h n
  | case2 mode cs ih =>
      intro n pending h
      apply onlyBraces_append (onlyBraces_lineOf? h n)
      apply ih
      cases mode <;> exact leadOk_nil (by simp [Mode.nextLine])
  | case3 c cs _ ih => exact ih
  | case4 => exact fun n _ h ↦ onlyBraces_lineOf? h n
  | case5 c _ d ds _ ih => exact fun n pending h ↦ ih n pending h.code
  | case6 c _ d ds _ ih => exact ih
  | case7 c _ quote =>
      intro n pending h
      have hlead := h.literal quote rfl
      have hpush : LeadOk .code (c :: pending) := h.push (.inr hlead) (by simp)
      exact onlyBraces_lineOf? hpush n
  | case8 c _ quote d ds _ ih =>
      intro n pending h
      have hlead := h.literal quote rfl
      have hfirst : LeadOk (.literal quote) (c :: pending) :=
        h.push (.inr hlead) fun _ _ ↦ .inr hlead
      have hfirstLead := hfirst.literal quote rfl
      exact ih n _ (hfirst.push (.inr hfirstLead) fun _ _ ↦ .inr hfirstLead)
  | case9 quote d ds _ _ ih =>
      intro n pending h
      exact ih n _ (h.push (.inr (h.literal quote rfl)) (by simp))
  | case10 c _ quote d ds _ _ ih =>
      intro n pending h
      have hlead := h.literal quote rfl
      exact ih n _ (h.push (.inr hlead) fun _ _ ↦ .inr hlead)
  | case11 c =>
      intro n pending h
      exact onlyBraces_ofCode h n fun n _ h ↦ onlyBraces_lineOf? h n
  | case12 c _ d ds _ ih => exact fun n pending h ↦ ih n pending ⟨h.ne_close, by simp⟩
  | case13 c _ d ds _ _ ih => exact fun n pending h ↦ ih n pending ⟨h.ne_close, by simp⟩
  | case14 c _ d ds _ _ ih => exact fun n pending h ↦ onlyBraces_ofCode h n ih

theorem closes_iff_of_mem_normalize {text : String} {l : Line} (h : l ∈ normalize text) :
    l.closes = true ↔ l.text = "\x7d" := by
  constructor
  · exact onlyBraces_linesOf .code text.toList 1 [] (leadOk_nil (by simp)) l h
  · intro htext
    simp [Line.closes, htext]

end ProtoHeader.Source

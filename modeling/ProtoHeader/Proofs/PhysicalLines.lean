import Mathlib.Data.Nat.Notation
import ProtoHeader.Source.Line
import ProtoHeader.Text.Lines

/-!
# Physical lines

A logical line carries the number of the physical line on which it ends.  These numbers never
decrease, and each is that of a line which the text has.

Main statements: `pairwise_number_normalize` and `number_bounds_of_mem_normalize`.
-/

namespace ProtoHeader

namespace Text

def lineCount (cs : List Char) : ℕ :=
  (linesOfPieces (cs.splitOn '\n')).length

theorem lineCount_nil : lineCount [] = 0 := rfl

theorem lineCount_newline (cs : List Char) : lineCount ('\n' :: cs) = lineCount cs + 1 := by
  rw [lineCount, lineCount, List.splitOn_cons_eq_if_modifyHead, if_pos (beq_self_eq_true _)]
  cases hsplit : cs.splitOn '\n' with
  | nil => exact absurd hsplit (List.splitOn_ne_nil '\n' cs)
  | cons piece pieces => rfl

theorem lineCount_cons {c : Char} (h : c ≠ '\n') (cs : List Char) :
    lineCount (c :: cs) = max 1 (lineCount cs) := by
  rw [lineCount, lineCount, List.splitOn_cons_eq_if_modifyHead, if_neg (by simpa using h)]
  rcases hsplit : cs.splitOn '\n' with _ | ⟨piece, _ | ⟨next, pieces⟩⟩
  · exact absurd hsplit (List.splitOn_ne_nil '\n' cs)
  · cases piece <;> rfl
  · simp [linesOfPieces]

end Text

namespace Source

open Text

/-- The number of lines among the marks.  A last line counts if there is something on it. -/
def markedLines : List Mark → ℕ
  | [] => 0
  | .newline :: ms => markedLines ms + 1
  | _ :: ms => max 1 (markedLines ms)

theorem markedLines_ofCode (c : Char) (ms : List Mark) :
    markedLines (.ofCode c :: ms) = max 1 (markedLines ms) := by
  unfold Mark.ofCode
  split
  · rfl
  · split <;> rfl

/-- Removing comments adds no lines. -/
theorem markedLines_marks_le (mode : Mode) (cs : List Char) :
    markedLines (marks mode cs) ≤ lineCount cs := by
  fun_induction marks mode cs <;>
    simp_all [markedLines, markedLines_ofCode, lineCount_nil, lineCount_newline, lineCount_cons] <;>
    omega

variable {n : ℕ} {pending : List Char} {ms : List Mark} {l : Line}

theorem number_of_mem_lineOf? {cs : List Char} (h : l ∈ (lineOf? n cs).toList) :
    l.number = n ∧ 0 < cs.length := by
  rw [Option.mem_toList, lineOf?] at h
  cases cs with
  | nil => simp [trim, skipBlanks] at h
  | cons c cs =>
      refine ⟨?_, Nat.succ_pos _⟩
      split at h
      · cases h
      · cases h
        rfl

theorem number_eq_or_mem {cs : List Char} {rest : List Line}
    (h : l ∈ (lineOf? n cs).toList ++ rest) : l.number = n ∨ l ∈ rest :=
  (List.mem_append.mp h).imp_left fun h ↦ (number_of_mem_lineOf? h).1

theorem number_bounds_of_mem_linesOf (h : l ∈ linesOf n pending ms) :
    n ≤ l.number ∧ l.number < n + max (min 1 pending.length) (markedLines ms) := by
  induction ms generalizing n pending with
  | nil =>
      obtain ⟨rfl, hpending⟩ := number_of_mem_lineOf? h
      rw [List.length_reverse] at hpending
      omega
  | cons m ms ih =>
      cases m with
      | plain c =>
          have hrest := ih (show l ∈ linesOf n (c :: pending) ms from h)
          simp only [List.length_cons, markedLines] at hrest ⊢
          omega
      | stop c =>
          simp only [markedLines]
          rcases number_eq_or_mem h with rfl | h
          · omega
          · have hrest := ih h
            rw [List.length_nil] at hrest
            omega
      | close =>
          simp only [markedLines]
          have hcases : l.number = n ∨ l ∈ linesOf n [] ms := by
            rcases number_eq_or_mem h with h | h
            · exact .inl h
            · exact (List.mem_cons.mp h).imp_left (congrArg Line.number)
          rcases hcases with rfl | h
          · omega
          · have hrest := ih h
            rw [List.length_nil] at hrest
            omega
      | newline =>
          simp only [markedLines]
          rcases number_eq_or_mem h with rfl | h
          · omega
          · have hrest := ih h
            rw [List.length_nil] at hrest
            omega

theorem pairwise_lineOf?_append {cs : List Char} {rest : List Line}
    (hle : ∀ l ∈ rest, n ≤ l.number) (hrest : rest.Pairwise (·.number ≤ ·.number)) :
    ((lineOf? n cs).toList ++ rest).Pairwise (·.number ≤ ·.number) := by
  rw [List.pairwise_append]
  refine ⟨?_, hrest, fun a ha b hb ↦ ?_⟩
  · cases lineOf? n cs <;> simp
  · rw [(number_of_mem_lineOf? ha).1]
    exact hle b hb

theorem pairwise_number_linesOf (n : ℕ) (pending : List Char) (ms : List Mark) :
    (linesOf n pending ms).Pairwise (·.number ≤ ·.number) := by
  have hle {n : ℕ} {ms : List Mark} (l : Line) (hl : l ∈ linesOf n [] ms) : n ≤ l.number :=
    (number_bounds_of_mem_linesOf hl).1
  induction ms generalizing n pending with
  | nil =>
      rw [linesOf]
      cases lineOf? n pending.reverse <;> simp
  | cons m ms ih =>
      cases m with
      | plain c => exact ih n (c :: pending)
      | stop c => exact pairwise_lineOf?_append hle (ih n [])
      | close =>
          refine pairwise_lineOf?_append ?_ (List.pairwise_cons.mpr ⟨hle, ih n []⟩)
          exact List.forall_mem_cons.mpr ⟨Nat.le_refl n, hle⟩
      | newline =>
          refine pairwise_lineOf?_append (fun l hl ↦ ?_) (ih (n + 1) [])
          exact Nat.le_of_succ_le (hle l hl)

theorem pairwise_number_normalize (text : String) :
    (normalize text).Pairwise (·.number ≤ ·.number) :=
  pairwise_number_linesOf 1 [] _

theorem number_bounds_of_mem_normalize {text : String} (h : l ∈ normalize text) :
    1 ≤ l.number ∧ l.number ≤ (lines text).length := by
  obtain ⟨hle, hlt⟩ := number_bounds_of_mem_linesOf h
  have hmarks := markedLines_marks_le .code text.toList
  have hlines : (lines text).length = lineCount text.toList := List.length_map _
  simp only [List.length_nil] at hlt
  omega

end Source

end ProtoHeader

import Mathlib.Data.List.Forall2
import Mathlib.Data.Nat.Notation
import Mathlib.Tactic.MkIffOfInductiveProp
import ProtoHeader.Writer

/-!
# Embedded fragments

A text can be written in place, or written on its own from the margin and then embedded line by
line.  Both give the same lines as long as the lines of the text survive being put together and cut
apart again, and the depth never falls below the one at the start.
-/

namespace ProtoHeader

/-! ## Lines of a finished text -/

/-- The text can stand on a line of its own and is read back from there. -/
@[mk_iff]
structure Text.IsLine (text : String) : Prop where
  unbroken : '\n' ∉ text.toList
  last : text.toList.getLast? ≠ some '\r'

instance (text : String) : Decidable (Text.IsLine text) :=
  decidable_of_iff' _ (Text.isLine_iff text)

namespace Writer

open Text

theorem linesOfPieces_concat_nil {pieces : List (List Char)}
    (h : ∀ piece ∈ pieces, piece.getLast? ≠ some '\r') :
    linesOfPieces (pieces ++ [[]]) = pieces := by
  induction pieces with
  | nil => rfl
  | cons piece pieces ih =>
      have hpiece : dropCarriageReturn piece = piece := if_neg (h piece List.mem_cons_self)
      have hrest := ih fun p hp ↦ h p (List.mem_cons_of_mem piece hp)
      cases pieces with
      | nil => simp [linesOfPieces, hpiece]
      | cons next pieces =>
          rw [List.cons_append, List.cons_append, linesOfPieces, hpiece, ← List.cons_append, hrest]
          nofun

theorem splitOn_finish {lines : List String} (hne : lines ≠ [])
    (h : ∀ l ∈ lines, '\n' ∉ l.toList) :
    (finish lines).toList.splitOn '\n' = lines.map String.toList ++ [[]] := by
  have htext : (finish lines).toList =
      ['\n'].intercalate (lines.map String.toList) ++ '\n' :: [] := by
    rw [finish, String.toList_append, String.toList_intercalate]
    rfl
  rw [htext, List.splitOn_append_cons_self, List.splitOn_intercalate, List.splitOn_nil]
  · simpa using h
  · simpa using hne

theorem lines_finish {lines : List String} (hne : lines ≠ []) (h : ∀ l ∈ lines, IsLine l) :
    Text.lines (finish lines) = lines := by
  rw [Text.lines, splitOn_finish hne fun l hl ↦ (h l hl).unbroken, linesOfPieces_concat_nil]
  · simp [Function.comp_def]
  · simpa using fun l hl ↦ (h l hl).last

/-! ## Indented lines -/

variable (unit : String)

theorem indented_empty (depth : ℕ) : indented unit depth "" = "" := rfl

theorem indented_of_ne_empty (depth : ℕ) {text : String} (h : text ≠ "") :
    indented unit depth text = String.join (List.replicate depth unit) ++ text :=
  if_neg (by simpa using h)

theorem indented_ne_empty (depth : ℕ) {text : String} (h : text ≠ "") :
    indented unit depth text ≠ "" := by
  rw [indented_of_ne_empty unit depth h]
  simp [String.append_eq_empty_iff, h]

/-- Indenting twice is indenting once by both depths. -/
theorem indented_indented (base depth : ℕ) (text : String) :
    indented unit base (indented unit depth text) = indented unit (base + depth) text := by
  by_cases h : text = ""
  · subst h
    rfl
  · rw [indented_of_ne_empty unit base (indented_ne_empty unit depth h),
      indented_of_ne_empty unit depth h, indented_of_ne_empty unit (base + depth) h,
      List.replicate_add, String.join_append, String.append_assoc]

variable {unit}

theorem isLine_indented (hunit : '\n' ∉ unit.toList) (depth : ℕ) {text : String}
    (h : IsLine text) : IsLine (indented unit depth text) := by
  by_cases hempty : text = ""
  · subst hempty
    exact h
  · have hchars : text.toList ≠ [] := by simpa using hempty
    rw [indented_of_ne_empty unit depth hempty]
    constructor
    · simpa [hunit] using h.unbroken
    · rw [String.toList_append, List.getLast?_append_of_ne_nil _ hchars]
      exact h.last

/-! ## Depths -/

/-- One level back, if this is not beyond the margin. -/
def back? : ℕ → Option ℕ
  | 0 => none
  | depth + 1 => some depth

theorem back?_eq_some_iff {depth reached : ℕ} :
    back? depth = some reached ↔ depth = reached + 1 := by
  cases depth <;> simp [back?]

mutual

/-- The depth an operation ends at, none if it goes back beyond the margin on its way. -/
def Op.reached? (depth : ℕ) : Op → Option ℕ
  | .line _ => some depth
  | .blank => some depth
  | .indent => some (depth + 1)
  | .dedent => back? depth
  | .fragment _ => some depth
  | .block _ _ body => (reached? (depth + 1) body).bind back?

def reached? (depth : ℕ) : List Op → Option ℕ
  | [] => some depth
  | op :: ops => (op.reached? depth).bind fun reached ↦ reached? reached ops

end

/-- The operations never go back beyond the depth they start at. -/
def Grounded (ops : List Op) : Prop :=
  (reached? 0 ops).isSome = true

mutual

theorem Op.run_of_reached? (unit : String) (base : ℕ) : ∀ (op : Op) {depth reached : ℕ},
    op.reached? depth = some reached →
      op.run unit (base + depth) =
        ((op.run unit depth).1.map (indented unit base), base + (op.run unit depth).2) ∧
      (op.run unit depth).2 = reached
  | .line text, depth, reached, h => by
      cases h
      simp [Op.run, indented_indented]
  | .blank, depth, reached, h => by
      cases h
      simp [Op.run, indented_empty]
  | .indent, depth, reached, h => by
      cases h
      simp [Op.run, Nat.add_assoc]
  | .dedent, depth, reached, h => by
      obtain rfl := back?_eq_some_iff.1 h
      simp [Op.run, ← Nat.add_assoc]
  | .fragment text, depth, reached, h => by
      cases h
      simp [Op.run, Function.comp_def, indented_indented]
  | .block opening closing body, depth, reached, h => by
      obtain ⟨inner, hinner, hback⟩ := Option.bind_eq_some_iff.1 h
      obtain rfl := back?_eq_some_iff.1 hback
      obtain ⟨hrun, hreached⟩ := run_of_reached? unit base body hinner
      rw [Op.run, Nat.add_assoc, hrun, Op.run]
      simp [hreached, indented_indented, ← Nat.add_assoc]

theorem run_of_reached? (unit : String) (base : ℕ) : ∀ (ops : List Op) {depth reached : ℕ},
    reached? depth ops = some reached →
      run unit (base + depth) ops =
        ((run unit depth ops).1.map (indented unit base), base + (run unit depth ops).2) ∧
      (run unit depth ops).2 = reached
  | [], depth, reached, h => by
      cases h
      simp [run]
  | op :: ops, depth, reached, h => by
      obtain ⟨middle, hop, hops⟩ := Option.bind_eq_some_iff.1 h
      obtain ⟨hfirst, rfl⟩ := op.run_of_reached? unit base hop
      obtain ⟨hrest, hreached⟩ := run_of_reached? unit base ops hops
      simp [run, hfirst, hrest, hreached]

end

/-! ## Texts of lines -/

mutual

/-- The texts of the lines that an operation writes, before they are indented. -/
def Op.texts : Op → List String
  | .line text => [text]
  | .blank => [""]
  | .indent => []
  | .dedent => []
  | .fragment text => Text.lines text
  | .block opening closing body => opening :: texts body ++ [closing]

def texts : List Op → List String
  | [] => []
  | op :: ops => op.texts ++ texts ops

end

/-- The line is the text at some depth. -/
def IsIndented (unit line text : String) : Prop :=
  ∃ depth, line = indented unit depth text

mutual

theorem Op.forall₂_run_texts (unit : String) (depth : ℕ) :
    ∀ op : Op, List.Forall₂ (IsIndented unit) (op.run unit depth).1 op.texts
  | .line text => .cons ⟨depth, rfl⟩ .nil
  | .blank => .cons ⟨depth, rfl⟩ .nil
  | .indent => .nil
  | .dedent => .nil
  | .fragment text => by
      rw [Op.run, Op.texts, List.forall₂_map_left_iff]
      exact List.forall₂_same.2 fun l _ ↦ ⟨depth, rfl⟩
  | .block opening closing body =>
      .cons ⟨depth, rfl⟩
        (List.rel_append (forall₂_run_texts unit (depth + 1) body) (.cons ⟨_, rfl⟩ .nil))

theorem forall₂_run_texts (unit : String) (depth : ℕ) :
    ∀ ops : List Op, List.Forall₂ (IsIndented unit) (run unit depth ops).1 (texts ops)
  | [] => .nil
  | op :: ops =>
      List.rel_append (op.forall₂_run_texts unit depth) (forall₂_run_texts unit _ ops)

end

theorem forall_isLine_of_forall₂ (hunit : '\n' ∉ unit.toList) {lines texts : List String}
    (h : List.Forall₂ (IsIndented unit) lines texts) (htexts : ∀ t ∈ texts, IsLine t) :
    ∀ l ∈ lines, IsLine l := by
  induction h with
  | nil => exact List.forall_mem_nil _
  | cons hline _ ih =>
      obtain ⟨htext, hrest⟩ := List.forall_mem_cons.1 htexts
      obtain ⟨depth, rfl⟩ := hline
      exact List.forall_mem_cons.2 ⟨isLine_indented hunit depth htext, ih hrest⟩

/-- Operations that write at least one line, only whole lines and never beyond the depth they start
at write the same lines in place as when they are finished on their own and embedded. -/
theorem embedding_writes_in_place {unit : String} (hunit : '\n' ∉ unit.toList) {ops : List Op}
    (hwrites : texts ops ≠ []) (hgrounded : Grounded ops) (htexts : ∀ t ∈ texts ops, IsLine t)
    (depth : ℕ) :
    (run unit depth ops).1 = ((Op.fragment (write unit ops)).run unit depth).1 := by
  obtain ⟨reached, hreached⟩ := Option.isSome_iff_exists.1 hgrounded
  have hindented := forall₂_run_texts unit 0 ops
  have hlines : (run unit 0 ops).1 ≠ [] := fun hnone ↦ by
    rw [hnone, List.forall₂_nil_left_iff] at hindented
    exact hwrites hindented
  have hcut : Text.lines (write unit ops) = (run unit 0 ops).1 :=
    lines_finish hlines (forall_isLine_of_forall₂ hunit hindented htexts)
  have hshift := (run_of_reached? unit depth ops hreached).1
  rw [Nat.add_zero] at hshift
  rw [hshift, Op.run, hcut]

/-- A block is left at a smaller depth than it was entered at, after an embedded text with an empty
line and a carriage return. -/
def looseBlock : List Op :=
  [.indent, .block "a \x7b" "\x7d" [.line "b;", .dedent, .fragment "\nc;\r\n"], .blank]

theorem embedding_writes_in_place_looseBlock :
    texts looseBlock = ["a \x7b", "b;", "", "c;", "\x7d", ""] ∧ Grounded looseBlock ∧
      ((Op.fragment (write "\t" looseBlock)).run "\t" 2).1 =
        ["\t\t\ta \x7b", "\t\t\t\tb;", "", "\t\t\tc;", "\t\t\x7d", ""] := by
  have htexts : texts looseBlock = ["a \x7b", "b;", "", "c;", "\x7d", ""] := by decide +kernel
  have hlines : ∀ t ∈ texts looseBlock, IsLine t := by
    rw [htexts]
    decide
  have hgrounded : Grounded looseBlock := rfl
  refine ⟨htexts, hgrounded, ?_⟩
  rw [← embedding_writes_in_place (by decide) (by rw [htexts]; nofun) hgrounded hlines 2]
  decide +kernel

end Writer

end ProtoHeader

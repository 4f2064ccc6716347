import ProtoHeader.Schema.Basic

/-!
# Positions

A message is identified by where it stands: the index of its top-level message, the index inside
that one, and so on. The empty position stands for the top level itself, so that every scope of a
schema has a position. Main statement: `mem_positions_iff`, the listed positions are those at
which a message stands.
-/

namespace ProtoHeader

/-- The path of indices from the top level down to a message. -/
abbrev Position := List Nat

/-- The positions that a message is nested in, innermost first. -/
def Position.ancestors (p : Position) : List Position :=
  (List.range' 1 (p.length - 1)).reverse.map p.take

/-- The scope that directly holds a message comes first, then those around it. -/
theorem Position.ancestors_concat (p : Position) (i : Nat) (h : p ≠ []) :
    ancestors (p ++ [i]) = p :: ancestors p := by
  have pos : 0 < p.length := List.length_pos_iff.2 h
  have count : p.length = (p.length - 1) + 1 := by omega
  have taken : ∀ k ∈ (List.range' 1 (p.length - 1)).reverse, (p ++ [i]).take k = p.take k := by
    intro k hk
    have := List.mem_range'_1.1 (List.mem_reverse.1 hk)
    exact List.take_append_of_le_length (by omega)
  simp only [ancestors, List.length_append, List.length_singleton, Nat.add_sub_cancel]
  rw [count, List.range'_concat, List.reverse_append, List.map_append]
  simp only [Nat.add_sub_cancel, List.map_congr_left taken]
  simp only [List.reverse_singleton, List.map_singleton, List.singleton_append, List.cons.injEq,
    and_true]
  rw [Nat.one_mul, Nat.add_comm, ← count]
  exact List.take_left

namespace Message

def descend? : Message → Position → Option Message
  | m, [] => some m
  | m, i :: rest => m.messages[i]?.bind (descend? · rest)

mutual

/-- The paths to the message itself and to every message inside it. -/
def paths : Message → List Position
  | ⟨_, _, _, messages, _⟩ => [] :: pathsFrom 0 messages

/-- The paths into messages that stand side by side, the first of them at index `i`. -/
def pathsFrom (i : Nat) : List Message → List Position
  | [] => []
  | m :: ms => m.paths.map (i :: ·) ++ pathsFrom (i + 1) ms

end

end Message

/-- The declarations that stand side by side, at the top level or in one message. -/
structure Scope where
  messages : List Message
  enums : List EnumDecl

namespace Schema

/-- The message at a position. No message stands at the empty position. -/
def messageAt? (s : Schema) : Position → Option Message
  | [] => none
  | i :: rest => s.messages[i]?.bind (·.descend? rest)

def scopeAt? (s : Schema) : Position → Option Scope
  | [] => some ⟨s.messages, s.enums⟩
  | p => (s.messageAt? p).map fun m => ⟨m.messages, m.enums⟩

def fieldsAt (s : Schema) (p : Position) : List Field :=
  ((s.messageAt? p).map (·.fields)).getD []

/-- The positions of all messages, each before those inside it. -/
def positions (s : Schema) : List Position :=
  Message.pathsFrom 0 s.messages

end Schema

namespace Message

theorem mem_pathsFrom_iff (ms : List Message) (i : Nat) (p : Position) :
    p ∈ pathsFrom i ms ↔ ∃ k m q, ms[k]? = some m ∧ q ∈ m.paths ∧ p = (i + k) :: q := by
  induction ms generalizing i with
  | nil => simp [pathsFrom]
  | cons m ms ih =>
    rw [pathsFrom, List.mem_append, List.mem_map, ih]
    constructor
    · rintro (⟨q, hq, rfl⟩ | ⟨k, n, q, hk, hq, rfl⟩)
      · exact ⟨0, m, q, rfl, hq, rfl⟩
      · exact ⟨k + 1, n, q, by simpa using hk, hq, by rw [Nat.add_assoc, Nat.add_comm 1 k]⟩
    · rintro ⟨k, n, q, hk, hq, rfl⟩
      cases k with
      | zero =>
        left
        have : m = n := by simpa using hk
        exact ⟨q, this ▸ hq, rfl⟩
      | succ k =>
        right
        exact ⟨k, n, q, by simpa using hk, hq, by rw [Nat.add_assoc, Nat.add_comm 1 k]⟩

theorem mem_paths_iff (m : Message) (p : Position) : p ∈ m.paths ↔ (m.descend? p).isSome := by
  induction p generalizing m with
  | nil => cases m; simp [paths, descend?]
  | cons i rest ih =>
    have unfolded : i :: rest ∈ m.paths ↔ i :: rest ∈ pathsFrom 0 m.messages := by
      cases m
      simp [paths]
    rw [unfolded, mem_pathsFrom_iff]
    constructor
    · rintro ⟨k, n, q, hk, hq, h⟩
      obtain ⟨rfl, rfl⟩ := List.cons.inj h
      simpa [descend?, hk] using (ih n).1 hq
    · intro h
      cases hk : m.messages[i]? with
      | none => simp [descend?, hk] at h
      | some n =>
        refine ⟨i, n, rest, hk, (ih n).2 ?_, by simp⟩
        simpa [descend?, hk] using h

theorem descend?_append (m : Message) (p q : Position) :
    m.descend? (p ++ q) = (m.descend? p).bind (·.descend? q) := by
  induction p generalizing m with
  | nil => rfl
  | cons i rest ih =>
    cases h : m.messages[i]? with
    | none => simp [descend?, h]
    | some n => simp [descend?, h, ih]

end Message

namespace Schema

theorem mem_positions_iff (s : Schema) (p : Position) :
    p ∈ s.positions ↔ (s.messageAt? p).isSome := by
  rw [positions, Message.mem_pathsFrom_iff]
  constructor
  · rintro ⟨k, m, q, hk, hq, rfl⟩
    simpa [messageAt?, hk] using (Message.mem_paths_iff m q).1 hq
  · intro h
    cases p with
    | nil => simp [messageAt?] at h
    | cons i rest =>
      cases hk : s.messages[i]? with
      | none => simp [messageAt?, hk] at h
      | some m =>
        refine ⟨i, m, rest, hk, (Message.mem_paths_iff m rest).2 ?_, by simp⟩
        simpa [messageAt?, hk] using h

/-- The message at index `i` of the scope at `p` stands at `p` extended by `i`. -/
theorem messageAt?_concat {s : Schema} {p : Position} {scope : Scope}
    (h : s.scopeAt? p = some scope) (i : Nat) :
    s.messageAt? (p ++ [i]) = scope.messages[i]? := by
  cases p with
  | nil =>
    obtain rfl : Scope.mk s.messages s.enums = scope := by simpa [scopeAt?] using h
    cases hi : s.messages[i]? <;> simp [messageAt?, Message.descend?, hi]
  | cons j rest =>
    simp only [scopeAt?, Option.map_eq_some_iff] at h
    obtain ⟨m, hm, rfl⟩ := h
    cases hj : s.messages[j]? with
    | none => simp [messageAt?, hj] at hm
    | some n =>
      have hm' : n.descend? rest = some m := by simpa [messageAt?, hj] using hm
      cases hi : m.messages[i]? <;>
        simp [messageAt?, hj, Message.descend?_append, hm', Message.descend?, hi]

end Schema

end ProtoHeader

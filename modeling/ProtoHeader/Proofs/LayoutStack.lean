import Mathlib.Data.List.Nodup
import Mathlib.Data.List.Perm.Subperm
import ProtoHeader.Proofs.MemoLayout

/-!
# The stack of messages being laid out

Messages are laid out on one stack that all calls share: a message is pushed before its members are
looked at and popped after them.  References lead anywhere in the schema, and the scopes that a walk
starts in need not be those around its message, so nothing about the tree makes the walk end.  What
does is that only messages of the schema are pushed, and none of them twice.
-/

namespace ProtoHeader

/-! ## Calls on a shared stack -/

/-- The messages on the stack when a call was made and when it returned. -/
structure CallFrame where
  entered : List Position
  left : List Position
  deriving DecidableEq, Repr

/-- The messages being laid out, the innermost first, the layouts that are remembered, and the calls
that have returned. -/
structure Walk where
  stack : List Position
  memo : Memo
  calls : List CallFrame
  deriving DecidableEq, Repr

/-- The call leaves a record of the stack. -/
def noted {α : Type} (call : StateT Walk Option α) : StateT Walk Option α := do
  let entered := (← get).stack
  let answer ← call
  modify fun w ↦ { w with calls := ⟨entered, w.stack⟩ :: w.calls }
  return answer

namespace Message

mutual

theorem length_paths (m : Message) : m.paths.length = m.family.length :=
  match m with
  | ⟨name, line, fields, messages, enums⟩ => by
      rw [paths, family, List.length_cons, List.length_cons, length_pathsFrom 0 messages]

theorem length_pathsFrom (i : ℕ) (ms : List Message) :
    (pathsFrom i ms).length = (families ms).length :=
  match ms with
  | [] => by rw [pathsFrom, families, List.length_nil, List.length_nil]
  | m :: ms => by
      rw [pathsFrom, families, List.length_append, List.length_append, List.length_map,
        length_paths m, length_pathsFrom (i + 1) ms]

end

end Message

namespace Schema

/-- What a field takes up, where messages are laid out by the given calls. -/
def stackMember (s : Schema) (model : DataModel)
    (layOut : List Position → Position → StateT Walk Option (Layout × Bool))
    (scopes : List Position) (f : Field) : StateT Walk Option (Extent × Bool) := noted do
  match s.storage model scopes f with
  | .fixed extent => return (extent, false)
  | .embedded enclosing q =>
    if (← get).stack.contains q then return (model.pointer, true)
    let inner ← layOut enclosing q
    return (inner.1.extent, inner.2)

/-- The layout of the message at a position, by calls that are nested no deeper than given.  There
is no answer if that is not deep enough. -/
def stackLayout (s : Schema) (model : DataModel) :
    ℕ → List Position → Position → StateT Walk Option (Layout × Bool)
  | 0, _, _ => failure
  | depth + 1, enclosing, p => noted do
    if let some known := (← get).memo.lookup p then
      return (known, false)
    modify fun w ↦ { w with stack := p :: w.stack }
    let members ← (s.fieldsAt p).mapM
      (s.stackMember model (s.stackLayout model depth) (p :: enclosing))
    modify fun w ↦ { w with stack := w.stack.tail }
    let layout := Record.layout (members.map (·.1))
    let dependent := members.any (·.2)
    unless dependent do
      modify fun w ↦ { w with memo := (p, layout) :: w.memo }
    return (layout, dependent)

/-! ## Stacks of messages -/

/-- The stack holds messages of the schema, none of them twice. -/
structure ListsMessages (s : Schema) (stack : List Position) : Prop where
  nodup : stack.Nodup
  mem : ∀ q ∈ stack, q ∈ s.positions

/-- The call was made on a stack of messages, and returned it as it was. -/
structure Balanced (s : Schema) (call : CallFrame) : Prop where
  lists : s.ListsMessages call.entered
  restored : call.left = call.entered

variable {s : Schema} {model : DataModel} {stack : List Position} {p : Position}

theorem listsMessages_nil (s : Schema) : s.ListsMessages [] :=
  ⟨List.nodup_nil, by simp⟩

theorem ListsMessages.cons (h : s.ListsMessages stack) (hp : p ∈ s.positions) (hfresh : p ∉ stack) :
    s.ListsMessages (p :: stack) :=
  ⟨h.nodup.cons hfresh, List.forall_mem_cons.mpr ⟨hp, h.mem⟩⟩

theorem ListsMessages.length_le (h : s.ListsMessages stack) :
    stack.length ≤ s.allMessages.length := by
  have hsub : stack.Subperm s.positions := h.nodup.subperm h.mem
  rw [allMessages, ← Message.length_pathsFrom 0 s.messages]
  exact hsub.length_le

/-! ## Computations that keep the stack -/

/-- On the given stack the first computation answers what the second one does and remembers the
same.  It leaves the stack as it was, and every call on the way is balanced. -/
def Follows (s : Schema) (stack : List Position) {α : Type} (m : StateT Walk Option α)
    (n : StateM Memo α) : Prop :=
  ∀ memo calls, ∃ made,
    m.run ⟨stack, memo, calls⟩ = some ((n.run memo).1, ⟨stack, (n.run memo).2, made ++ calls⟩) ∧
      ∀ call ∈ made, s.Balanced call

namespace Follows

variable {α β : Type}

theorem pure (a : α) : s.Follows stack (Pure.pure a) (Pure.pure a) :=
  fun _ _ ↦ ⟨[], rfl, by simp⟩

theorem bind {m : StateT Walk Option α} {n : StateM Memo α} {next : α → StateT Walk Option β}
    {next' : α → StateM Memo β} (hm : s.Follows stack m n)
    (hnext : ∀ a, s.Follows stack (next a) (next' a)) :
    s.Follows stack (m >>= next) (n >>= next') := by
  intro memo calls
  obtain ⟨made, hrun, hmade⟩ := hm memo calls
  obtain ⟨made', hrun', hmade'⟩ := hnext (n.run memo).1 (n.run memo).2 (made ++ calls)
  refine ⟨made' ++ made, ?_, List.forall_mem_append.mpr ⟨hmade', hmade⟩⟩
  rw [StateT.run_bind, hrun, List.append_assoc]
  exact hrun'

theorem mapM {action : α → StateT Walk Option β} {action' : α → StateM Memo β} (xs : List α)
    (h : ∀ x ∈ xs, s.Follows stack (action x) (action' x)) :
    s.Follows stack (xs.mapM action) (xs.mapM action') := by
  induction xs with
  | nil => exact .pure []
  | cons x xs ih =>
      obtain ⟨hx, hxs⟩ := List.forall_mem_cons.mp h
      rw [List.mapM_cons, List.mapM_cons]
      exact hx.bind fun _ ↦ (ih hxs).bind fun _ ↦ .pure _

theorem noted {m : StateT Walk Option α} {n : StateM Memo α} (hstack : s.ListsMessages stack)
    (h : s.Follows stack m n) : s.Follows stack (noted m) n := by
  intro memo calls
  obtain ⟨made, hrun, hmade⟩ := h memo calls
  refine ⟨⟨stack, stack⟩ :: made, ?_, List.forall_mem_cons.mpr ⟨⟨hstack, rfl⟩, hmade⟩⟩
  simp only [ProtoHeader.noted, StateT.run_bind, StateT.run_get, pure_bind, hrun]
  rfl

theorem get_bind {next : Walk → StateT Walk Option α} {n : StateM Memo α}
    (h : ∀ w, w.stack = stack → s.Follows stack (next w) n) :
    s.Follows stack (get >>= next) n :=
  fun memo calls ↦ h ⟨stack, memo, calls⟩ rfl memo calls

end Follows

theorem follows_stackMember {layOut : List Position → Position → StateT Walk Option (Layout × Bool)}
    (hstack : s.ListsMessages stack)
    (hlayOut : ∀ enclosing q, q ∈ s.positions → q ∉ stack →
      s.Follows stack (layOut enclosing q) (s.memoLayout model stack enclosing q))
    (scopes : List Position) (f : Field) :
    s.Follows stack (s.stackMember model layOut scopes f)
      (s.memoMember model stack scopes f) := by
  apply Follows.noted hstack
  cases hs : s.storage model scopes f with
  | fixed extent =>
      rw [memoMember_fixed hs]
      exact .pure _
  | embedded enclosing q =>
      apply Follows.get_bind
      rintro w rfl
      by_cases hq : q ∈ w.stack
      · rw [memoMember_visited hs hq, if_pos (List.contains_iff_mem.mpr hq)]
        exact .pure _
      · rw [memoMember_fresh hs hq, if_neg (mt List.contains_iff_mem.mp hq)]
        have hinner := hlayOut enclosing q (mem_positions_of_storage hs) hq
        exact hinner.bind fun _ ↦ .pure _

/-- Each call pushes one more message of the schema, so that as many calls as there are messages off
the stack are deep enough. -/
theorem follows_stackLayout (s : Schema) (model : DataModel) {depth : ℕ} {stack : List Position}
    (hstack : s.ListsMessages stack) (enclosing : List Position) {p : Position}
    (hp : p ∈ s.positions) (hfresh : p ∉ stack)
    (hdepth : s.allMessages.length ≤ stack.length + depth) :
    s.Follows stack (s.stackLayout model depth enclosing p)
      (s.memoLayout model stack enclosing p) := by
  induction depth generalizing stack enclosing p with
  | zero =>
      have hpushed := hstack.cons hp hfresh
      have hlength := hpushed.length_le
      rw [List.length_cons] at hlength
      omega
  | succ depth ih =>
      have hpushed := hstack.cons hp hfresh
      apply Follows.noted hstack
      have hmembers : s.Follows (p :: stack)
          ((s.fieldsAt p).mapM (s.stackMember model (s.stackLayout model depth) (p :: enclosing)))
          ((s.fieldsAt p).mapM (s.memoMember model (p :: stack) (p :: enclosing))) := by
        apply Follows.mapM
        intro f _
        apply follows_stackMember hpushed
        intro enclosing' q hq hfresh'
        apply ih hpushed enclosing' hq hfresh'
        rw [List.length_cons]
        omega
      intro memo calls
      obtain ⟨made, hrun, hmade⟩ := hmembers memo calls
      cases hlookup : memo.lookup p with
      | some known =>
          refine ⟨[], ?_, by simp⟩
          rw [memoLayout_run_known hlookup]
          simp only [StateT.run_bind, StateT.run_get, pure_bind, hlookup]
          rfl
      | none =>
          refine ⟨made, ?_, hmade⟩
          rw [memoLayout_run_unknown hlookup]
          simp only [StateT.run_bind, StateT.run_get, StateT.run_modify, hlookup, hrun,
            Option.pure_def, Option.bind_eq_bind, Option.bind_some]
          split
          · rfl
          · rfl

/-! ## Walks that end -/

/-- The call ends on the stack that it was made on and gives the answer, with what is remembered
after it.  It is the last call to return, and like all calls on the way it was made on a stack of
messages and left it as it was. -/
def EndsWith (s : Schema) (stack : List Position) (memo : Memo) {α : Type}
    (call : StateT Walk Option α) (answer : α × Memo) : Prop :=
  ∃ calls, call.run ⟨stack, memo, []⟩ = some (answer.1, ⟨stack, answer.2, calls⟩) ∧
    calls.head? = some ⟨stack, stack⟩ ∧
    ∀ c ∈ calls, s.Balanced c ∧ c.entered.length ≤ s.allMessages.length

theorem head?_calls_of_noted {α : Type} {m : StateT Walk Option α} {w w' : Walk} {a : α}
    (h : (noted m).run w = some (a, w')) : w'.calls.head? = some ⟨w.stack, w'.stack⟩ := by
  obtain ⟨⟨answer, after⟩, -, hnoted⟩ := Option.bind_eq_some_iff.mp h
  obtain ⟨-, rfl⟩ := Prod.mk.inj (Option.some.inj hnoted)
  rfl

theorem Follows.endsWith {α : Type} {m : StateT Walk Option α} {n : StateM Memo α}
    (h : s.Follows stack m n) (memo : Memo)
    (hlast : ∀ {w w' : Walk} {a : α}, m.run w = some (a, w') →
      w'.calls.head? = some ⟨w.stack, w'.stack⟩) :
    s.EndsWith stack memo m (n.run memo) := by
  obtain ⟨made, hrun, hmade⟩ := h memo []
  rw [List.append_nil] at hrun
  refine ⟨made, hrun, hlast hrun, ?_⟩
  intro call hcall
  exact ⟨hmade call hcall, (hmade call hcall).lists.length_le⟩

/-- From every stack of messages, in any scopes and whatever is remembered, a walk comes to its end
by calls that are nested no deeper than there are messages off the stack. -/
theorem layout_walk_ends (s : Schema) (model : DataModel) {stack : List Position}
    (hstack : s.ListsMessages stack) (memo : Memo) {depth : ℕ}
    (hdepth : s.allMessages.length ≤ stack.length + depth) :
    (∀ enclosing p, p ∈ s.positions → p ∉ stack →
      s.EndsWith stack memo (s.stackLayout model depth enclosing p)
        ((s.memoLayout model stack enclosing p).run memo)) ∧
    ∀ scopes f,
      s.EndsWith stack memo (s.stackMember model (s.stackLayout model depth) scopes f)
        ((s.memoMember model stack scopes f).run memo) := by
  constructor
  · intro enclosing p hp hfresh
    apply (follows_stackLayout s model hstack enclosing hp hfresh hdepth).endsWith memo
    intro w w' a hrun
    cases depth with
    | zero => cases hrun
    | succ depth => exact head?_calls_of_noted hrun
  · intro scopes f
    have hmember : s.Follows stack (s.stackMember model (s.stackLayout model depth) scopes f)
        (s.memoMember model stack scopes f) := by
      apply follows_stackMember hstack
      intro enclosing q hq hfresh
      exact follows_stackLayout s model hstack enclosing hq hfresh hdepth
    exact hmember.endsWith memo head?_calls_of_noted

/-- Two messages that hold each other, laid out from a scope that is around neither. -/
theorem layout_walk_ends_cycle :
    let s : Schema := ⟨"proto3", "", [],
      [⟨"A", 1, [.declare "B" "b" 1 false 2], [], []⟩,
        ⟨"B", 4, [.declare "A" "a" 1 false 5], [], []⟩], []⟩
    s.EndsWith [] [] (s.stackLayout .lp64 2 [[1]] [0])
      ((s.memoLayout .lp64 [] [[1]] [0]).run []) := by
  intro s
  have hdepth : s.allMessages.length ≤ ([] : List Position).length + 2 := by decide
  obtain ⟨hlayout, -⟩ := layout_walk_ends s .lp64 s.listsMessages_nil [] hdepth
  exact hlayout [[1]] [0] (by decide) (by decide)

end Schema

end ProtoHeader

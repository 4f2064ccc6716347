import ProtoHeader.Layout.Memo
import ProtoHeader.Proofs.Containment

/-!
# Remembered layouts agree with fresh ones

The memo is filled in the middle of walks that start elsewhere, and it is consulted from within
others.  It only ever holds settled messages with their own layouts.  A walk that consults it has
come to the message from all messages that are being laid out, so that none of them lies below a
settled message, and the remembered layout is the one that the walk would have computed.
-/

namespace ProtoHeader

/-! ## Computations with one answer -/

/-- From every state that satisfies `inv` the computation answers `a`, and leaves such a state. -/
def Yields {σ α : Type} (inv : σ → Prop) (m : StateM σ α) (a : α) : Prop :=
  ∀ memory, inv memory → (m.run memory).1 = a ∧ inv (m.run memory).2

namespace Yields

variable {σ α β : Type} {inv : σ → Prop}

theorem pure (a : α) : Yields inv (Pure.pure a) a :=
  fun _ hinv ↦ ⟨rfl, hinv⟩

theorem bind {m : StateM σ α} {next : α → StateM σ β} {a : α} {b : β}
    (hm : Yields inv m a) (hnext : Yields inv (next a) b) : Yields inv (m >>= next) b := by
  intro memory hinv
  obtain ⟨hanswer, hinv'⟩ := hm memory hinv
  have hrest := hnext (m.run memory).2 hinv'
  rw [← hanswer] at hrest
  exact hrest

theorem mapM {action : α → StateM σ β} {answer : α → β} {xs : List α}
    (h : ∀ x ∈ xs, Yields inv (action x) (answer x)) :
    Yields inv (xs.mapM action) (xs.map answer) := by
  induction xs with
  | nil => exact .pure []
  | cons x xs ih =>
      rw [List.mapM_cons]
      have hrest := ih fun y hy ↦ h y (List.mem_cons_of_mem x hy)
      exact (h x List.mem_cons_self).bind (hrest.bind (.pure _))

end Yields

namespace Schema

open Relation

/-- Only settled messages are remembered, each with its own layout. -/
def Remembers (s : Schema) (model : DataModel) (memo : Memo) : Prop :=
  ∀ p layout, memo.lookup p = some layout →
    s.Settled p ∧ layout = s.freshLayout model p

variable {s : Schema} {model : DataModel} {p q : Position} {visiting : List Position} {f : Field}

theorem remembers_nil : s.Remembers model [] := by
  intro p layout h
  simp at h

theorem Remembers.cons {memo : Memo} (hmemo : s.Remembers model memo) (hp : s.Settled p) :
    s.Remembers model ((p, s.freshLayout model p) :: memo) := by
  intro q layout h
  by_cases hq : q = p
  · subst q
    obtain rfl : s.freshLayout model p = layout := by simpa using h
    exact ⟨hp, rfl⟩
  · refine hmemo q layout ?_
    rwa [List.lookup_cons, beq_false_of_ne hq] at h

/-- A settled message does not lead back to the messages that lead to it. -/
theorem Settled.not_reaches_back (hp : s.Settled p)
    (hchain : ∀ v ∈ visiting, TransGen s.Contains v p) :
    ∀ v ∈ visiting, ¬ ReflTransGen s.Contains p v := by
  intro v hv hpv
  exact (hp.of_reachable hpv).not_transGen_self ((hchain v hv).trans_left hpv)

theorem memoMember_fixed {scopes : List Position} {extent : Extent}
    (h : s.storage model scopes f = .fixed extent) :
    s.memoMember model visiting scopes f = Pure.pure (extent, false) := by
  rw [memoMember]
  split <;> simp_all

theorem memoMember_visited {scopes enclosing : List Position}
    (h : s.storage model scopes f = .embedded enclosing q) (hq : q ∈ visiting) :
    s.memoMember model visiting scopes f = Pure.pure (model.pointer, true) := by
  rw [memoMember]
  split <;> simp_all

theorem memoMember_fresh {scopes enclosing : List Position}
    (h : s.storage model scopes f = .embedded enclosing q) (hq : q ∉ visiting) :
    s.memoMember model visiting scopes f =
      s.memoLayout model visiting enclosing q >>= fun inner ↦
        Pure.pure (inner.1.extent, inner.2) := by
  rw [memoMember]
  split <;> simp_all

/-- A member is sized as without the memo if the messages below it are laid out so. -/
theorem yields_memoMember (hf : f ∈ s.fieldsAt p)
    (hinner : ∀ q, s.Contains p q → q ∉ visiting →
      Yields (s.Remembers model) (s.memoLayout model visiting q.ancestors q)
        (s.plainLayout model visiting q.ancestors q)) :
    Yields (s.Remembers model) (s.memoMember model visiting p.scopes f)
      (s.plainMember model visiting p.scopes f) := by
  cases hs : s.storage model p.scopes f with
  | fixed extent =>
      rw [memoMember_fixed hs, plainMember_fixed hs]
      exact .pure _
  | embedded enclosing q =>
      obtain rfl := anchored_of_storage hs
      by_cases hq : q ∈ visiting
      · rw [memoMember_visited hs hq, plainMember_visited hs hq]
        exact .pure _
      · rw [memoMember_fresh hs hq, plainMember_fresh hs hq]
        exact (hinner q (contains_of_storage hf hs) hq).bind (.pure _)

theorem memoLayout_run_known {enclosing : List Position} {memo : Memo} {layout : Layout}
    (h : memo.lookup p = some layout) :
    (s.memoLayout model visiting enclosing p).run memo = ((layout, false), memo) := by
  rw [memoLayout]
  simp only [StateT.run_bind, StateT.run_get, pure_bind, h]
  rfl

theorem memoLayout_run_unknown {enclosing : List Position} {memo : Memo}
    (h : memo.lookup p = none) :
    (s.memoLayout model visiting enclosing p).run memo =
      let members := ((s.fieldsAt p).mapM
        (s.memoMember model (p :: visiting) (p :: enclosing))).run memo
      let layout := Record.layout (members.1.map (·.1))
      ((layout, members.1.any (·.2)),
        if members.1.any (·.2) then members.2 else (p, layout) :: members.2) := by
  rw [memoLayout]
  simp only [StateT.run_bind, StateT.run_get, pure_bind, h]
  generalize ((s.fieldsAt p).mapM (s.memoMember model (p :: visiting) (p :: enclosing))).run memo =
    members
  obtain ⟨members, memo'⟩ := members
  cases hany : members.any (·.2) <;>
    · simp only [bind, hany]
      rfl

/-- Walking with the memo gives what walking without it gives, provided that the walk has come
from all messages which are being laid out. -/
theorem yields_memoLayout (s : Schema) (model : DataModel) (visiting : List Position)
    (p : Position) (hchain : ∀ v ∈ visiting, TransGen s.Contains v p) :
    Yields (s.Remembers model) (s.memoLayout model visiting p.ancestors p)
      (s.plainLayout model visiting p.ancestors p) := by
  induction visiting, p using walk_induction s with
  | step visiting p ih =>
      intro memo hmemo
      cases hlookup : memo.lookup p with
      | some layout =>
          obtain ⟨hp, rfl⟩ := hmemo p layout hlookup
          rw [memoLayout_run_known hlookup]
          exact ⟨(plainLayout_of_settled s model hp (hp.not_reaches_back hchain)).symm, hmemo⟩
      | none =>
          have hmembers : Yields (s.Remembers model)
              ((s.fieldsAt p).mapM (s.memoMember model (p :: visiting) (p :: p.ancestors)))
              ((s.fieldsAt p).map (s.plainMember model (p :: visiting) p.scopes)) := by
            apply Yields.mapM
            intro f hf
            rw [scopes_of_mem_fieldsAt hf]
            exact yields_memoMember hf fun q hq hfresh ↦ ih q hq hfresh (chain_cons hchain hq)
          obtain ⟨hanswer, hmemo'⟩ := hmembers memo hmemo
          have hplain := plainLayout_ancestors s model visiting p
          rw [memoLayout_run_unknown hlookup]
          simp only [hanswer]
          refine ⟨hplain.symm, ?_⟩
          -- what is new in the memo was computed without the guard, hence is settled
          split
          · exact hmemo'
          · next hany =>
              have hunguarded : (s.plainLayout model visiting p.ancestors p).2 = false := by
                rw [hplain]
                simpa using hany
              have hp := settled_of_unguarded s model visiting p hunguarded
              have hlayout := plainLayout_of_settled s model hp (hp.not_reaches_back hchain)
              rw [← (Prod.mk.inj (hlayout.symm.trans hplain)).1]
              exact hmemo'.cons hp

/-- Every message is laid out as if nothing were remembered. -/
theorem yields_layoutAt (s : Schema) (model : DataModel) (p : Position) :
    Yields (s.Remembers model) (s.layoutAt model p) (s.freshLayout model p) :=
  (yields_memoLayout s model [] p (by simp)).bind (.pure _)

theorem yields_layoutsAt (s : Schema) (model : DataModel) (queries : List Position) :
    Yields (s.Remembers model) (queries.mapM (s.layoutAt model))
      (queries.map (s.freshLayout model)) :=
  .mapM fun p _ ↦ s.yields_layoutAt model p

/-! ## Calls made on the way -/

/-- The calls made while the message at `start`, found inside `outer`, is laid out and `known` is
remembered.  Each says which messages are being laid out around the message at `p`, inside which
scopes that one was found, and what is remembered by then. -/
inductive Call (s : Schema) (model : DataModel) (known : Memo) (outer : List Position)
    (start : Position) : List Position → List Position → Position → Memo → Prop
  | start : Call s model known outer start [] outer start known
  | member {visiting enclosing enclosing' : List Position} {p q : Position} {memo : Memo}
      {before after : List Field} {f : Field}
      (call : Call s model known outer start visiting enclosing p memo)
      (unknown : memo.lookup p = none) (fields : s.fieldsAt p = before ++ f :: after)
      (embedded : s.storage model (p :: enclosing) f = .embedded enclosing' q)
      (fresh : q ∉ p :: visiting) :
      Call s model known outer start (p :: visiting) enclosing' q
        ((before.mapM (s.memoMember model (p :: visiting) (p :: enclosing))).run memo).2

/-- The extents of which the layout of the message at `p` is made up in a call. -/
def callExtents (s : Schema) (model : DataModel) (visiting enclosing : List Position)
    (p : Position) (memo : Memo) : List Extent :=
  (((s.fieldsAt p).mapM (s.memoMember model (p :: visiting) (p :: enclosing))).run memo).1.map
    (·.1)

theorem yields_memoMembers (hchain : ∀ v ∈ visiting, TransGen s.Contains v p)
    {fields : List Field} (hfields : ∀ f ∈ fields, f ∈ s.fieldsAt p) :
    Yields (s.Remembers model)
      (fields.mapM (s.memoMember model (p :: visiting) (p :: p.ancestors)))
      (fields.map (s.plainMember model (p :: visiting) p.scopes)) := by
  apply Yields.mapM
  intro f hf
  rw [scopes_of_mem_fieldsAt (hfields f hf)]
  refine yields_memoMember (hfields f hf) fun q hq _ ↦ s.yields_memoLayout model _ q ?_
  exact chain_cons hchain hq

/-- A call is always made with true ancestors, in a walk that leads to its message. -/
theorem Call.invariant {known memo : Memo} {start : Position} {enclosing : List Position}
    (hknown : s.Remembers model known)
    (h : s.Call model known start.ancestors start visiting enclosing p memo) :
    enclosing = p.ancestors ∧ (∀ v ∈ visiting, TransGen s.Contains v p) ∧
      s.Remembers model memo := by
  induction h with
  | start => exact ⟨rfl, by simp, hknown⟩
  | @member visiting enclosing enclosing' p q memo before after f call _ fields embedded _ ih =>
      obtain ⟨rfl, hchain, hmemo⟩ := ih
      have hf : f ∈ s.fieldsAt p := by simp [fields]
      rw [scopes_of_mem_fieldsAt hf] at embedded
      have hq : s.Contains p q := contains_of_storage hf embedded
      have hbefore : ∀ g ∈ before, g ∈ s.fieldsAt p := fun g hg ↦ by simp [fields, hg]
      exact ⟨anchored_of_storage embedded, chain_cons hchain hq,
        (yields_memoMembers hchain hbefore memo hmemo).2⟩

/-- A settled message is made up of its members' own layouts in every call. -/
theorem Call.extents_eq {known memo : Memo} {start : Position} {enclosing : List Position}
    (hknown : s.Remembers model known)
    (h : s.Call model known start.ancestors start visiting enclosing p memo)
    (hp : s.Settled p) :
    s.callExtents model visiting enclosing p memo =
      (s.fieldsAt p).map (s.memberExtent model p) := by
  obtain ⟨rfl, hchain, hmemo⟩ := h.invariant hknown
  have hanswer := (yields_memoMembers hchain (fun f hf ↦ hf) memo hmemo).1
  rw [callExtents, hanswer, List.map_map]
  refine List.map_congr_left fun f hf ↦ ?_
  rw [Function.comp_apply,
    plainMember_of_settled model hp (hp.not_reaches_back hchain) f hf]

end Schema

end ProtoHeader

import Mathlib.Logic.Relation
import ProtoHeader.Layout.Plain
import ProtoHeader.Proofs.Ancestry

/-!
# Containment by value

A message contains another one by value when one of its singular fields refers to it.  A message
from which no cycle of containment can be reached is *settled*: the recursion guard is never hit
below it, and its layout is the same from wherever the walk started.

Main statements: `plainLayout_of_settled`, the layout of a settled message ignores the messages
being laid out around it, and `settled_iff_acyclic`, the settled messages are those from which no
cycle is reachable.
-/

namespace ProtoHeader

/-- What is stored takes up, where each message has the given layout. -/
@[simp] def Storage.extent (layoutOf : Position → Layout) : Storage → Extent
  | .fixed extent => extent
  | .embedded _ q => (layoutOf q).extent

namespace Schema

open Relation

/-- A singular field of the message at `p` refers to the message at `q`. -/
def Contains (s : Schema) (p q : Position) : Prop :=
  ∃ f ∈ s.fieldsAt p, f.isRepeated = false ∧ f.scalar? = none ∧
    ∃ enclosing, s.resolve? p.scopes f.typeName = some (.message enclosing q)

/-- Containment ends after finitely many steps, whichever fields are followed. -/
def Settled (s : Schema) (p : Position) : Prop :=
  Acc (fun q p ↦ s.Contains p q) p

/-- The layout of the message at a position, computed with nothing remembered. -/
def freshLayout (s : Schema) (model : DataModel) (p : Position) : Layout :=
  (s.plainLayout model [] p.ancestors p).1

/-- What a field of the message at `p` takes up if every message is laid out on its own. -/
def memberExtent (s : Schema) (model : DataModel) (p : Position) (f : Field) : Extent :=
  (s.storage model p.scopes f).extent (s.freshLayout model)

variable {s : Schema} {model : DataModel} {p q : Position} {visiting : List Position} {f : Field}

/-! ## Stored fields -/

theorem contains_of_storage {enclosing : List Position} (hf : f ∈ s.fieldsAt p)
    (h : s.storage model p.scopes f = .embedded enclosing q) : s.Contains p q := by
  obtain ⟨hrep, hscalar, hresolve⟩ := storage_eq_embedded_iff.mp h
  exact ⟨f, hf, hrep, hscalar, enclosing, hresolve⟩

theorem Contains.exists_storage (model : DataModel) (h : s.Contains p q) :
    ∃ f ∈ s.fieldsAt p, s.storage model p.scopes f = .embedded q.ancestors q := by
  obtain ⟨f, hf, hrep, hscalar, enclosing, hresolve⟩ := h
  have hstorage : s.storage model p.scopes f = .embedded enclosing q :=
    storage_eq_embedded_iff.mpr ⟨hrep, hscalar, hresolve⟩
  exact ⟨f, hf, anchored_of_storage hstorage ▸ hstorage⟩

theorem Contains.mem_positions (h : s.Contains p q) : q ∈ s.positions := by
  obtain ⟨f, -, -, -, enclosing, hresolve⟩ := h
  exact mem_positions_of_resolve? hresolve

theorem fieldsAt_nil : s.fieldsAt [] = [] := rfl

theorem scopes_of_mem_fieldsAt (hf : f ∈ s.fieldsAt p) : p :: p.ancestors = p.scopes := by
  rw [Position.scopes_of_ne_nil]
  rintro rfl
  simp [fieldsAt_nil] at hf

/-! ## One member of a layout -/

theorem plainMember_fixed {scopes : List Position} {extent : Extent}
    (h : s.storage model scopes f = .fixed extent) :
    s.plainMember model visiting scopes f = (extent, false) := by
  rw [plainMember]
  split <;> simp_all

theorem plainMember_visited (h : s.storage model p.scopes f = .embedded q.ancestors q)
    (hq : q ∈ visiting) :
    s.plainMember model visiting p.scopes f = (model.pointer, true) := by
  rw [plainMember]
  split <;> simp_all

theorem plainMember_fresh (h : s.storage model p.scopes f = .embedded q.ancestors q)
    (hq : q ∉ visiting) :
    s.plainMember model visiting p.scopes f =
      ((s.plainLayout model visiting q.ancestors q).1.extent,
        (s.plainLayout model visiting q.ancestors q).2) := by
  rw [plainMember]
  split <;> simp_all

theorem plainLayout_ancestors (s : Schema) (model : DataModel) (visiting : List Position)
    (p : Position) :
    s.plainLayout model visiting p.ancestors p =
      (Record.layout (((s.fieldsAt p).map
          (s.plainMember model (p :: visiting) p.scopes)).map (·.1)),
        ((s.fieldsAt p).map (s.plainMember model (p :: visiting) p.scopes)).any (·.2)) := by
  have hmembers : (s.fieldsAt p).map
      (fun f ↦ s.plainMember model (p :: visiting) (p :: p.ancestors) f) =
        (s.fieldsAt p).map (s.plainMember model (p :: visiting) p.scopes) :=
    List.map_congr_left fun f hf ↦ by rw [scopes_of_mem_fieldsAt hf]
  rw [plainLayout]
  simp only [hmembers]

theorem plainLayout_eq_record {extentOf : Field → Extent}
    (h : ∀ f ∈ s.fieldsAt p,
      s.plainMember model (p :: visiting) p.scopes f = (extentOf f, false)) :
    s.plainLayout model visiting p.ancestors p =
      (Record.layout ((s.fieldsAt p).map extentOf), false) := by
  rw [plainLayout_ancestors, List.map_congr_left h]
  simp [Function.comp_def]

/-! ## Walks along containment -/

/-- A statement about a walk holds at every message if it holds wherever it holds one step deeper.
Only messages outside the walk are entered, so that the walk ends. -/
theorem walk_induction (s : Schema) {motive : List Position → Position → Prop}
    (step : ∀ visiting p, (∀ q, s.Contains p q → q ∉ p :: visiting → motive (p :: visiting) q) →
      motive visiting p)
    (visiting : List Position) (p : Position) : motive visiting p := by
  induction hn : (s.unvisited (p :: visiting)).length using Nat.strongRecOn
    generalizing visiting p with
  | ind n ih =>
      apply step
      intro q hq hfresh
      exact ih _ (hn ▸ length_unvisited_cons_lt hq.mem_positions hfresh) (p :: visiting) q rfl

theorem plainMember_unguarded (hf : f ∈ s.fieldsAt p)
    (h : (s.plainLayout model visiting p.ancestors p).2 = false) :
    (s.plainMember model (p :: visiting) p.scopes f).2 = false := by
  rw [plainLayout_ancestors] at h
  simpa using List.any_eq_false.mp h _ (List.mem_map_of_mem hf)

theorem settled_of_members (model : DataModel)
    (h : ∀ f ∈ s.fieldsAt p, ∀ enclosing q,
      s.storage model p.scopes f = .embedded enclosing q → s.Settled q) : s.Settled p := by
  refine Acc.intro p fun q hq ↦ ?_
  obtain ⟨f, hf, hs⟩ := hq.exists_storage model
  exact h f hf _ q hs

/-- A walk that is never cut short ends at every message below. -/
theorem settled_of_unguarded (s : Schema) (model : DataModel) (visiting : List Position)
    (p : Position) (h : (s.plainLayout model visiting p.ancestors p).2 = false) :
    s.Settled p := by
  induction visiting, p using walk_induction s with
  | step visiting p ih =>
      refine settled_of_members model fun f hf enclosing q hs ↦ ?_
      obtain rfl := anchored_of_storage hs
      have hmember := plainMember_unguarded hf h
      by_cases hvisited : q ∈ p :: visiting
      · simp [plainMember_visited hs hvisited] at hmember
      · refine ih q (contains_of_storage hf hs) hvisited ?_
        simpa [plainMember_fresh hs hvisited] using hmember

/-- Entering a message keeps all messages of the walk leading to the current one. -/
theorem chain_cons (hchain : ∀ v ∈ visiting, TransGen s.Contains v p) (hq : s.Contains p q) :
    ∀ v ∈ p :: visiting, TransGen s.Contains v q := by
  intro v hv
  rcases List.mem_cons.mp hv with rfl | hv
  · exact .single hq
  · exact (hchain v hv).tail hq

/-- Where a walk is cut short it has come upon a cycle: all messages of the walk lead to the
current one. -/
theorem exists_cycle_of_guarded (s : Schema) (model : DataModel) (visiting : List Position)
    (p : Position) (hchain : ∀ v ∈ visiting, TransGen s.Contains v p)
    (h : (s.plainLayout model visiting p.ancestors p).2 = true) :
    ∃ q, ReflTransGen s.Contains p q ∧ TransGen s.Contains q q := by
  induction visiting, p using walk_induction s with
  | step visiting p ih =>
      rw [plainLayout_ancestors] at h
      rw [List.any_map] at h
      obtain ⟨f, hf, hmember⟩ := List.any_eq_true.mp h
      rw [Function.comp_apply] at hmember
      cases hs : s.storage model p.scopes f with
      | fixed extent => simp [plainMember_fixed hs] at hmember
      | embedded enclosing q =>
          obtain rfl := anchored_of_storage hs
          have hq : s.Contains p q := contains_of_storage hf hs
          by_cases hvisited : q ∈ p :: visiting
          · refine ⟨q, .single hq, ?_⟩
            rcases List.mem_cons.mp hvisited with rfl | hvisited
            · exact .single hq
            · exact (hchain q hvisited).tail hq
          · rw [plainMember_fresh hs hvisited] at hmember
            obtain ⟨r, hqr, hr⟩ := ih q hq hvisited (chain_cons hchain hq) hmember
            exact ⟨r, .head hq hqr, hr⟩

/-! ## Settled messages -/

theorem Settled.of_contains (hp : s.Settled p) (h : s.Contains p q) : s.Settled q :=
  hp.inv h

theorem Settled.of_reachable (hp : s.Settled p) (h : ReflTransGen s.Contains p q) :
    s.Settled q := by
  induction h with
  | refl => exact hp
  | tail _ hstep ih => exact ih.of_contains hstep

theorem Settled.not_transGen_self (hp : s.Settled p) : ¬ TransGen s.Contains p p := by
  induction hp with
  | intro p _ ih =>
      intro hcycle
      obtain ⟨q, hpq, hqp⟩ := TransGen.head'_iff.mp hcycle
      exact ih q hpq (TransGen.tail' hqp hpq)

theorem settled_iff_acyclic :
    s.Settled p ↔ ¬ ∃ q, ReflTransGen s.Contains p q ∧ TransGen s.Contains q q := by
  constructor
  · rintro hp ⟨q, hpq, hq⟩
    exact (hp.of_reachable hpq).not_transGen_self hq
  · intro hacyclic
    apply settled_of_unguarded s .lp64 [] p
    by_contra hguarded
    exact hacyclic
      (exists_cycle_of_guarded s .lp64 [] p (by simp) (by simpa using hguarded))

/-- The members of a settled message are sized by their own layouts, whatever messages that it
does not lead to are being laid out around it. -/
theorem plainMember_of_settled (model : DataModel) (hp : s.Settled p)
    (hvisiting : ∀ v ∈ visiting, ¬ ReflTransGen s.Contains p v) :
    ∀ f ∈ s.fieldsAt p,
      s.plainMember model (p :: visiting) p.scopes f = (s.memberExtent model p f, false) := by
  induction hp generalizing visiting with
  | intro p hacc ih =>
      intro f hf
      have hp : s.Settled p := Acc.intro p hacc
      cases hs : s.storage model p.scopes f with
      | fixed extent => simp [plainMember_fixed hs, memberExtent, hs]
      | embedded enclosing q =>
          obtain rfl := anchored_of_storage hs
          have hq : s.Contains p q := contains_of_storage hf hs
          have hvisiting' : ∀ v ∈ p :: visiting, ¬ ReflTransGen s.Contains q v := by
            intro v hv hqv
            rcases List.mem_cons.mp hv with rfl | hv
            · exact hp.not_transGen_self (TransGen.head' hq hqv)
            · exact hvisiting v hv (.head hq hqv)
          have hfresh : q ∉ p :: visiting := fun hmem ↦ hvisiting' q hmem .refl
          have hwalk := plainLayout_eq_record (ih q hq hvisiting')
          have hnone : ∀ v ∈ ([] : List Position), ¬ ReflTransGen s.Contains q v := by simp
          have hown := plainLayout_eq_record (ih q hq hnone)
          simp only [plainMember_fresh hs hfresh, hwalk, memberExtent, hs, Storage.extent,
            freshLayout, hown]

theorem freshLayout_of_settled (s : Schema) (model : DataModel) (hp : s.Settled p) :
    s.freshLayout model p = Record.layout ((s.fieldsAt p).map (s.memberExtent model p)) := by
  rw [freshLayout, plainLayout_eq_record (plainMember_of_settled model hp (by simp))]

theorem plainLayout_of_settled (s : Schema) (model : DataModel) (hp : s.Settled p)
    (hvisiting : ∀ v ∈ visiting, ¬ ReflTransGen s.Contains p v) :
    s.plainLayout model visiting p.ancestors p = (s.freshLayout model p, false) := by
  rw [plainLayout_eq_record (plainMember_of_settled model hp hvisiting),
    freshLayout_of_settled s model hp]

end Schema

end ProtoHeader

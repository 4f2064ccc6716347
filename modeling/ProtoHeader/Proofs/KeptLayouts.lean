import Mathlib.Data.List.Forall2
import ProtoHeader.Proofs.MemoLayout

/-!
# What is remembered stays

The extent of a field is that of its type: an entry of the data model, or the layout of the message
that the type names.  A walk which finds it out only adds to the memo, and remembers nothing of the
messages that are being laid out.  A layout is remembered if none of these took part in it, that is,
if the memo settles the extents of all fields; and what it settles once it settles for good.
-/

namespace ProtoHeader

theorem run_mapM_cons {σ α β : Type} (action : α → StateM σ β) (x : α) (xs : List α) (state : σ) :
    ((x :: xs).mapM action).run state =
      (((action x).run state).1 :: ((xs.mapM action).run ((action x).run state).2).1,
        ((xs.mapM action).run ((action x).run state).2).2) := by
  rw [List.mapM_cons]
  rfl

theorem run_mapM_concat {σ α β : Type} (action : α → StateM σ β) (xs : List α) (x : α)
    (state : σ) :
    ((xs ++ [x]).mapM action).run state =
      (((xs.mapM action).run state).1 ++ [((action x).run ((xs.mapM action).run state).2).1],
        ((action x).run ((xs.mapM action).run state).2).2) := by
  rw [List.mapM_append, List.mapM_cons, List.mapM_nil]
  rfl

namespace Schema

variable {s : Schema} {model : DataModel} {visiting scopes enclosing : List Position}
  {p : Position} {f : Field} {memo memo' : Memo}

/-! ## Extents of fields -/

/-- The extent of a field that stands in the given scopes, while the messages of `visiting` are
being laid out and `memo` is remembered, and what is remembered once it is known. -/
inductive FieldExtent (s : Schema) (model : DataModel) (visiting scopes : List Position)
    (memo : Memo) (f : Field) : Extent → Memo → Prop
  | array (repeated : f.isRepeated = true) :
      FieldExtent s model visiting scopes memo f model.vector memo
  | scalar {t : Scalar} (single : f.isRepeated = false) (named : f.scalar? = some t) :
      FieldExtent s model visiting scopes memo f (model.scalar t) memo
  | enumeration (single : f.isRepeated = false) (reference : f.scalar? = none)
      (found : s.resolve? scopes f.typeName = some .enum) :
      FieldExtent s model visiting scopes memo f model.enumeration memo
  | unknown (single : f.isRepeated = false) (reference : f.scalar? = none)
      (found : s.resolve? scopes f.typeName = none) :
      FieldExtent s model visiting scopes memo f model.pointer memo
  | visited {enclosing : List Position} {q : Position} (single : f.isRepeated = false)
      (reference : f.scalar? = none)
      (found : s.resolve? scopes f.typeName = some (.message enclosing q)) (around : q ∈ visiting) :
      FieldExtent s model visiting scopes memo f model.pointer memo
  | message {enclosing : List Position} {q : Position} {layout : Layout} {dependent : Bool}
      {memo' : Memo} (single : f.isRepeated = false) (reference : f.scalar? = none)
      (found : s.resolve? scopes f.typeName = some (.message enclosing q)) (fresh : q ∉ visiting)
      (made : (s.memoLayout model visiting enclosing q).run memo = ((layout, dependent), memo')) :
      FieldExtent s model visiting scopes memo f ⟨layout.size, layout.align⟩ memo'

/-- The extents of fields in their order, where each finds what the ones before it left behind. -/
inductive FieldExtents (s : Schema) (model : DataModel) (visiting scopes : List Position) :
    Memo → List Field → List Extent → Prop
  | nil {memo : Memo} : FieldExtents s model visiting scopes memo [] []
  | cons {memo memo' : Memo} {f : Field} {e : Extent} {fields : List Field} {es : List Extent}
      (first : s.FieldExtent model visiting scopes memo f e memo')
      (rest : FieldExtents s model visiting scopes memo' fields es) :
      FieldExtents s model visiting scopes memo (f :: fields) (e :: es)

theorem fieldExtent_memoMember (s : Schema) (model : DataModel) (visiting scopes : List Position)
    (memo : Memo) (f : Field) :
    s.FieldExtent model visiting scopes memo f
      ((s.memoMember model visiting scopes f).run memo).1.1
      ((s.memoMember model visiting scopes f).run memo).2 := by
  cases hrepeated : f.isRepeated with
  | true =>
      have hs : s.storage model scopes f = .fixed model.vector := by
        simp [storage, hrepeated]
      rw [memoMember_fixed hs]
      exact .array hrepeated
  | false =>
      cases hscalar : f.scalar? with
      | some t =>
          have hs : s.storage model scopes f = .fixed (model.scalar t) := by
            simp [storage, hrepeated, hscalar]
          rw [memoMember_fixed hs]
          exact .scalar hrepeated hscalar
      | none =>
          match hfound : s.resolve? scopes f.typeName with
          | none =>
              have hs : s.storage model scopes f = .fixed model.pointer := by
                simp [storage, hrepeated, hscalar, hfound]
              rw [memoMember_fixed hs]
              exact .unknown hrepeated hscalar hfound
          | some .enum =>
              have hs : s.storage model scopes f = .fixed model.enumeration := by
                simp [storage, hrepeated, hscalar, hfound]
              rw [memoMember_fixed hs]
              exact .enumeration hrepeated hscalar hfound
          | some (.message enclosing q) =>
              have hs : s.storage model scopes f = .embedded enclosing q := by
                simp [storage, hrepeated, hscalar, hfound]
              by_cases hq : q ∈ visiting
              · rw [memoMember_visited hs hq]
                exact .visited hrepeated hscalar hfound hq
              · rw [memoMember_fresh hs hq]
                exact .message hrepeated hscalar hfound hq rfl

theorem fieldExtents_memoMembers (s : Schema) (model : DataModel) (visiting scopes : List Position)
    (memo : Memo) (fields : List Field) :
    s.FieldExtents model visiting scopes memo fields
      (((fields.mapM (s.memoMember model visiting scopes)).run memo).1.map (·.1)) := by
  induction fields generalizing memo with
  | nil => exact .nil
  | cons f fields ih =>
      rw [run_mapM_cons]
      exact .cons (s.fieldExtent_memoMember model visiting scopes memo f) (ih _)

theorem FieldExtents.length_eq {fields : List Field} {members : List Extent}
    (h : s.FieldExtents model visiting scopes memo fields members) :
    members.length = fields.length := by
  induction h with
  | nil => rfl
  | cons _ _ ih => rw [List.length_cons, List.length_cons, ih]

/-! ## Invariants of a walk -/

/-- A statement about calls holds of every call if it holds wherever it holds one step deeper. -/
theorem call_induction (s : Schema) (model : DataModel)
    {motive : List Position → List Position → Position → Prop}
    (step : ∀ visiting enclosing p,
      (∀ f enclosing' q, s.storage model (p :: enclosing) f = .embedded enclosing' q →
        q ∉ p :: visiting → motive (p :: visiting) enclosing' q) →
      motive visiting enclosing p)
    (visiting enclosing : List Position) (p : Position) : motive visiting enclosing p := by
  induction hn : (s.unvisited (p :: visiting)).length using Nat.strongRecOn
    generalizing visiting enclosing p with
  | ind n ih =>
      apply step
      intro f enclosing' q hs hfresh
      have hlt := length_unvisited_cons_lt (mem_positions_of_storage hs) hfresh
      exact ih _ (hn ▸ hlt) (p :: visiting) enclosing' q rfl

/-- The calls on the way from `start` keep up an invariant of the memo and a property of extents:
all that is known or fixed has the property, records pass it on, and layouts can be stored. -/
structure Carries (s : Schema) (model : DataModel) (known : Memo) (outer : List Position)
    (start : Position) (inv : Memo → Prop) (good : Extent → Prop) : Prop where
  fixed : ∀ scopes f e, s.storage model scopes f = .fixed e → good e
  pointer : good model.pointer
  remembered : ∀ memo p layout, inv memo → memo.lookup p = some layout → good layout.extent
  record : ∀ members : List Extent, (∀ e ∈ members, good e) → good (Record.layout members).extent
  stored : ∀ visiting enclosing p memo,
    s.Call model known outer start visiting enclosing p memo → memo.lookup p = none →
    (∀ e ∈ s.callExtents model visiting enclosing p memo, good e) →
    (∀ member ∈ (((s.fieldsAt p).mapM
      (s.memoMember model (p :: visiting) (p :: enclosing))).run memo).1, member.2 = false) →
    inv (((s.fieldsAt p).mapM (s.memoMember model (p :: visiting) (p :: enclosing))).run memo).2 →
    inv ((p, Record.layout (s.callExtents model visiting enclosing p memo)) ::
      (((s.fieldsAt p).mapM (s.memoMember model (p :: visiting) (p :: enclosing))).run memo).2)

section Walk

variable {known : Memo} {outer : List Position} {start : Position} {inv : Memo → Prop}
  {good : Extent → Prop}

/-- The fields are measured one after another, each with what the ones before it left behind. -/
theorem Carries.memoMembers (h : s.Carries model known outer start inv good)
    (hcall : s.Call model known outer start visiting enclosing p memo)
    (hunknown : memo.lookup p = none) (hmemo : inv memo)
    (hinner : ∀ f enclosing' q, s.storage model (p :: enclosing) f = .embedded enclosing' q →
      q ∉ p :: visiting →
      ∀ memo', s.Call model known outer start (p :: visiting) enclosing' q memo' → inv memo' →
        good ((s.memoLayout model (p :: visiting) enclosing' q).run memo').1.1.extent ∧
          inv ((s.memoLayout model (p :: visiting) enclosing' q).run memo').2)
    {first rest : List Field} (hfields : s.fieldsAt p = first ++ rest) :
    (∀ member ∈ ((first.mapM (s.memoMember model (p :: visiting) (p :: enclosing))).run memo).1,
        good member.1) ∧
      inv ((first.mapM (s.memoMember model (p :: visiting) (p :: enclosing))).run memo).2 := by
  induction first using List.reverseRecOn generalizing rest with
  | nil => exact ⟨fun member hmember ↦ absurd hmember List.not_mem_nil, hmemo⟩
  | append_singleton first f ih =>
      rw [List.append_assoc, List.singleton_append] at hfields
      obtain ⟨hgood, hbefore⟩ := ih hfields
      rw [run_mapM_concat, List.forall_mem_append, List.forall_mem_singleton, and_assoc]
      refine ⟨hgood, ?_⟩
      cases hs : s.storage model (p :: enclosing) f with
      | fixed extent =>
          rw [memoMember_fixed hs]
          exact ⟨h.fixed _ f extent hs, hbefore⟩
      | embedded enclosing' q =>
          by_cases hq : q ∈ p :: visiting
          · rw [memoMember_visited hs hq]
            exact ⟨h.pointer, hbefore⟩
          · rw [memoMember_fresh hs hq]
            exact hinner f enclosing' q hs hq _ (.member hcall hunknown hfields hs hq) hbefore

theorem Carries.memoLayout (h : s.Carries model known outer start inv good)
    (visiting enclosing : List Position) (p : Position) :
    ∀ memo, s.Call model known outer start visiting enclosing p memo → inv memo →
      good ((s.memoLayout model visiting enclosing p).run memo).1.1.extent ∧
        inv ((s.memoLayout model visiting enclosing p).run memo).2 := by
  induction visiting, enclosing, p using call_induction s model with
  | step visiting enclosing p ih =>
      intro memo hcall hmemo
      cases hlookup : memo.lookup p with
      | some layout =>
          rw [memoLayout_run_known hlookup]
          exact ⟨h.remembered memo p layout hmemo hlookup, hmemo⟩
      | none =>
          obtain ⟨hmembers, hmemo'⟩ := h.memoMembers hcall hlookup hmemo ih
            (List.append_nil (s.fieldsAt p)).symm
          have hgood := List.forall_mem_map.mpr hmembers
          rw [memoLayout_run_unknown hlookup]
          refine ⟨h.record _ hgood, ?_⟩
          simp only
          split
          · exact hmemo'
          · next hany =>
              exact h.stored visiting enclosing p memo hcall hlookup hgood (by simpa using hany)
                hmemo'

theorem Carries.callExtents (h : s.Carries model known outer start inv good)
    (hcall : s.Call model known outer start visiting enclosing p memo)
    (hunknown : memo.lookup p = none) (hmemo : inv memo) :
    ∀ e ∈ s.callExtents model visiting enclosing p memo, good e := by
  have hmembers := h.memoMembers hcall hunknown hmemo
    (fun _ enclosing' q _ _ ↦ h.memoLayout (p :: visiting) enclosing' q)
    (List.append_nil (s.fieldsAt p)).symm
  exact List.forall_mem_map.mpr hmembers.1

end Walk

/-! ## Growing memos -/

/-- The second memo remembers what the first one does, and nothing new of the given messages. -/
def Grows (without : List Position) (memo memo' : Memo) : Prop :=
  ∀ q, q ∈ without ∨ (memo.lookup q).isSome → memo'.lookup q = memo.lookup q

theorem Grows.refl (without : List Position) (memo : Memo) : Grows without memo memo :=
  fun _ _ ↦ rfl

theorem Grows.trans {without : List Position} {memo'' : Memo} (h : Grows without memo memo')
    (h' : Grows without memo' memo'') : Grows without memo memo'' := by
  intro q hq
  have hsame := h q hq
  rw [h' q (by rwa [hsame]), hsame]

theorem Grows.lookup_eq {without : List Position} (h : Grows without memo memo') {layout : Layout}
    (hp : memo.lookup p = some layout) : memo'.lookup p = some layout := by
  rw [h p (.inr (by rw [hp]; rfl)), hp]

/-- A message that was being laid out is remembered in the end. -/
theorem Grows.cons (h : Grows (p :: visiting) memo memo') (hp : p ∉ visiting)
    (hunknown : memo.lookup p = none) (layout : Layout) :
    Grows visiting memo ((p, layout) :: memo') := by
  intro q hq
  have hne : q ≠ p := by
    rintro rfl
    rcases hq with hq | hq
    · exact hp hq
    · rw [hunknown] at hq
      cases hq
  rw [List.lookup_cons, beq_false_of_ne hne]
  exact h q (hq.imp_left (List.mem_cons_of_mem p))

theorem Grows.of_cons (h : Grows (p :: visiting) memo memo') : Grows visiting memo memo' :=
  fun q hq ↦ h q (hq.imp_left (List.mem_cons_of_mem p))

theorem grows_memoMembers_of_inner
    (hinner : ∀ f enclosing q, s.storage model scopes f = .embedded enclosing q → q ∉ visiting →
      ∀ memo, Grows visiting memo ((s.memoLayout model visiting enclosing q).run memo).2)
    (memo : Memo) (fields : List Field) :
    Grows visiting memo ((fields.mapM (s.memoMember model visiting scopes)).run memo).2 := by
  induction fields generalizing memo with
  | nil => exact .refl visiting memo
  | cons f fields ih =>
      rw [run_mapM_cons]
      refine Grows.trans ?_ (ih _)
      cases hs : s.storage model scopes f with
      | fixed extent =>
          rw [memoMember_fixed hs]
          exact .refl visiting memo
      | embedded enclosing q =>
          by_cases hq : q ∈ visiting
          · rw [memoMember_visited hs hq]
            exact .refl visiting memo
          · rw [memoMember_fresh hs hq]
            exact hinner f enclosing q hs hq memo

/-- Laying out a message only adds to the memo, and nothing about those that it is part of. -/
theorem grows_memoLayout (s : Schema) (model : DataModel) (visiting enclosing : List Position)
    (p : Position) (hp : p ∉ visiting) (memo : Memo) :
    Grows visiting memo ((s.memoLayout model visiting enclosing p).run memo).2 := by
  induction visiting, enclosing, p using call_induction s model generalizing memo with
  | step visiting enclosing p ih =>
      cases hlookup : memo.lookup p with
      | some layout =>
          rw [memoLayout_run_known hlookup]
          exact .refl visiting memo
      | none =>
          have hmembers : Grows (p :: visiting) memo (((s.fieldsAt p).mapM
              (s.memoMember model (p :: visiting) (p :: enclosing))).run memo).2 :=
            grows_memoMembers_of_inner (fun f enclosing' q hs hq ↦ ih f enclosing' q hs hq hq)
              memo (s.fieldsAt p)
          rw [memoLayout_run_unknown hlookup]
          simp only
          split
          · exact hmembers.of_cons
          · exact hmembers.cons hp hlookup _

theorem grows_memoMembers (s : Schema) (model : DataModel) (visiting scopes : List Position)
    (memo : Memo) (fields : List Field) :
    Grows visiting memo ((fields.mapM (s.memoMember model visiting scopes)).run memo).2 :=
  grows_memoMembers_of_inner
    (fun _ enclosing q _ hq ↦ s.grows_memoLayout model visiting enclosing q hq) memo fields

/-! ## Extents that the memo settles -/

/-- The memo settles the extent of a field of the message at `p`: no message has to be laid out for
it, and that at `p` least of all. -/
inductive FirmExtent (s : Schema) (model : DataModel) (memo : Memo) (enclosing : List Position)
    (p : Position) (f : Field) : Extent → Prop
  | fixed {e : Extent} (fixed : s.storage model (p :: enclosing) f = .fixed e) :
      FirmExtent s model memo enclosing p f e
  | known {enclosing' : List Position} {q : Position} {layout : Layout}
      (embedded : s.storage model (p :: enclosing) f = .embedded enclosing' q) (other : q ≠ p)
      (known : memo.lookup q = some layout) : FirmExtent s model memo enclosing p f layout.extent

theorem FirmExtent.mono {without : List Position} {e : Extent}
    (h : s.FirmExtent model memo enclosing p f e) (hgrows : Grows without memo memo') :
    s.FirmExtent model memo' enclosing p f e := by
  cases h with
  | fixed hfixed => exact .fixed hfixed
  | known hembedded hother hknown => exact .known hembedded hother (hgrows.lookup_eq hknown)

/-- A layout in which no message that is being laid out takes part is remembered. -/
theorem lookup_of_independent
    (h : ((s.memoLayout model visiting enclosing p).run memo).1.2 = false) :
    ((s.memoLayout model visiting enclosing p).run memo).2.lookup p =
      some ((s.memoLayout model visiting enclosing p).run memo).1.1 := by
  cases hlookup : memo.lookup p with
  | some layout =>
      rw [memoLayout_run_known hlookup]
      exact hlookup
  | none =>
      rw [memoLayout_run_unknown hlookup] at h ⊢
      simp only at h ⊢
      rw [if_neg (by simp [h]), List.lookup_cons_self]

theorem firmExtent_memoMember
    (h : ((s.memoMember model (p :: visiting) (p :: enclosing) f).run memo).1.2 = false) :
    s.FirmExtent model ((s.memoMember model (p :: visiting) (p :: enclosing) f).run memo).2
      enclosing p f ((s.memoMember model (p :: visiting) (p :: enclosing) f).run memo).1.1 := by
  cases hs : s.storage model (p :: enclosing) f with
  | fixed extent =>
      rw [memoMember_fixed hs]
      exact .fixed hs
  | embedded enclosing' q =>
      by_cases hq : q ∈ p :: visiting
      · rw [memoMember_visited hs hq] at h
        cases h
      · rw [memoMember_fresh hs hq] at h ⊢
        exact .known hs (List.ne_of_not_mem_cons hq) (lookup_of_independent h)

theorem firmExtents_memoMembers {fields : List Field} {members : List (Extent × Bool)}
    (hrun : (fields.mapM (s.memoMember model (p :: visiting) (p :: enclosing))).run memo =
      (members, memo')) (h : ∀ member ∈ members, member.2 = false) :
    List.Forall₂ (s.FirmExtent model memo' enclosing p) fields (members.map (·.1)) := by
  induction fields generalizing memo members with
  | nil =>
      cases hrun
      exact .nil
  | cons f fields ih =>
      rw [run_mapM_cons] at hrun
      cases hrun
      obtain ⟨hfirst, hrest⟩ := List.forall_mem_cons.mp h
      -- what settles the first extent is still there after the other fields
      have hgrows := s.grows_memoMembers model (p :: visiting) (p :: enclosing)
        ((s.memoMember model (p :: visiting) (p :: enclosing) f).run memo).2 fields
      exact .cons ((firmExtent_memoMember hfirst).mono hgrows) (ih rfl hrest)

/-- An extent that the memo settles is found there at any later time. -/
theorem FirmExtent.fieldExtent {e : Extent} (h : s.FirmExtent model memo enclosing p f e) :
    s.FieldExtent model [p] (p :: enclosing) memo f e memo := by
  have hmember := s.fieldExtent_memoMember model [p] (p :: enclosing) memo f
  cases h with
  | fixed hfixed =>
      rw [memoMember_fixed hfixed] at hmember
      exact hmember
  | known hembedded hother hknown =>
      rw [memoMember_fresh hembedded (List.not_mem_cons_of_ne_of_not_mem hother List.not_mem_nil),
        StateT.run_bind, memoLayout_run_known hknown] at hmember
      exact hmember

theorem fieldExtents_of_firm {fields : List Field} {members : List Extent}
    (h : List.Forall₂ (s.FirmExtent model memo enclosing p) fields members) :
    s.FieldExtents model [p] (p :: enclosing) memo fields members := by
  induction h with
  | nil => exact .nil
  | cons hfirst _ ih => exact .cons hfirst.fieldExtent ih

end Schema

end ProtoHeader

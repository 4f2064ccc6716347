import ProtoHeader.Proofs.KeptLayouts
import ProtoHeader.Proofs.RecordLayout

/-!
# Every layout is that of a record

Questions for layouts are put one after another with one memo, each with scopes of its own choice.
Whatever was asked before, and wherever the recursion guard cut the walk short, the answer is the
layout of a record whose members are the extents of the fields.  All these extents are *proper*,
which a record passes on from its members to itself.

The types of the fields are looked up in the scopes of the question, unless the layout is
remembered.  In that case they were looked up in the scopes of the call that stored it, which may
have been other ones.
-/

namespace ProtoHeader

/-! ## Proper extents -/

/-- An extent that a field can have: aligned to one, four or eight bytes, and not empty. -/
structure Extent.Proper (e : Extent) : Prop where
  regular : e.Regular
  size_pos : 0 < e.size

/-- The layout places members of the given extents in a valid way. -/
structure Layout.Places (layout : Layout) (members : List Extent) : Prop where
  length_offsets : layout.offsets.length = members.length
  align_eq : layout.align = 1 ∨ layout.align = 4 ∨ layout.align = 8
  size_pos : 0 < layout.size
  align_dvd_size : layout.align ∣ layout.size
  align_dvd_align : ∀ e ∈ members, e.align ∣ layout.align
  align_dvd_offset : ∀ (i : ℕ) (e : Extent) (offset : ℕ), members[i]? = some e →
    layout.offsets[i]? = some offset → e.align ∣ offset
  ends_before_next : ∀ (i : ℕ) (e : Extent) (offset next : ℕ), members[i]? = some e →
    layout.offsets[i]? = some offset → layout.offsets[i + 1]? = some next →
    offset + e.size ≤ next
  ends_inside : ∀ (i : ℕ) (e : Extent) (offset : ℕ), members[i]? = some e →
    layout.offsets[i]? = some offset → offset + e.size ≤ layout.size

namespace Record

variable {members : List Extent}

theorem alignment_pos (members : List Extent) : 0 < alignment members := by
  rcases alignment_mem members with hone | ⟨e, -, heq⟩
  · rw [hone]
    exact Nat.one_pos
  · rw [← heq]
    exact e.alignment_pos

theorem size_layout_pos (h : ∀ e ∈ members, 0 < e.size) : 0 < (layout members).size := by
  cases members with
  | nil => exact Nat.one_pos
  | cons e es =>
      have hfirst : (offsets (e :: es))[0]? = some (roundUp 0 e.alignment) := rfl
      have hend : roundUp 0 e.alignment + e.size ≤ endOf (e :: es) := add_size_le_endOf rfl hfirst
      have hsize := endOf_le_size (e :: es)
      have hpos := h e List.mem_cons_self
      omega

theorem align_dvd_size_layout (members : List Extent) :
    (layout members).align ∣ (layout members).size := by
  cases members with
  | nil => exact Nat.dvd_refl 1
  | cons e es => exact dvd_roundUp (alignment_pos (e :: es)) _

theorem proper_layout (h : ∀ e ∈ members, e.Proper) : (layout members).extent.Proper where
  regular := Extent.Regular.layout fun e he ↦ (h e he).regular
  size_pos := size_layout_pos fun e he ↦ (h e he).size_pos

theorem layout_places (h : ∀ e ∈ members, e.Proper) : (layout members).Places members where
  length_offsets := by rw [offsets_layout, offsets, length_offsetsFrom]
  align_eq := (proper_layout h).regular
  size_pos := (proper_layout h).size_pos
  align_dvd_size := align_dvd_size_layout members
  align_dvd_align _ he := Extent.Regular.align_dvd_layout (fun e he ↦ (h e he).regular) he
  align_dvd_offset i e offset he hoffset := by
    rw [offsets_layout] at hoffset
    rw [← (h e (List.mem_of_getElem? he)).regular.alignment_eq]
    exact dvd_of_getElem?_offsetsFrom he hoffset
  ends_before_next i e offset next he hoffset hnext := by
    rw [offsets_layout] at hoffset hnext
    exact add_size_le_of_getElem?_offsetsFrom (Nat.lt_succ_self i) he hoffset hnext
  ends_inside i e offset he hoffset := by
    rw [offsets_layout] at hoffset
    exact Nat.le_trans (add_size_le_endOf he hoffset) (endOf_le_size members)

end Record

theorem DataModel.proper_pointer (model : DataModel) : model.pointer.Proper :=
  ⟨model.regular_pointer, by cases model <;> decide⟩

namespace Schema

variable {s : Schema} {model : DataModel}

theorem proper_of_storage {scopes : List Position} {f : Field} {e : Extent}
    (h : s.storage model scopes f = .fixed e) : e.Proper := by
  refine ⟨regular_of_storage h, ?_⟩
  rcases storage_fixed_cases h with rfl | ⟨t, rfl⟩ | rfl | rfl
  · cases model <;> decide
  · cases model <;> cases t <;> decide
  · cases model <;> decide
  · exact model.proper_pointer.size_pos

/-! ## Questions and calls -/

/-- A question for the layout of the message at a position, taken to stand inside `enclosing`. -/
structure Question where
  enclosing : List Position
  position : Position

def answer (s : Schema) (model : DataModel) (q : Question) : StateM Memo Layout :=
  s.layoutInside model q.enclosing q.position

/-- What is remembered after the questions have been answered in order. -/
def memoAfter (s : Schema) (model : DataModel) (questions : List Question) : Memo :=
  ((questions.mapM (s.answer model)).run []).2

/-- The answer to a question that is put after the earlier ones. -/
def answerAfter (s : Schema) (model : DataModel) (earlier : List Question) (question : Question) :
    Layout :=
  ((s.answer model question).run (s.memoAfter model earlier)).1

/-- A call on the way to one of the answers, for the message at `p` inside `enclosing`, stored the
layout: it was not remembered before, and no message around that one took part in it. -/
def Stored (s : Schema) (model : DataModel) (questions : List Question) (enclosing : List Position)
    (p : Position) (layout : Layout) : Prop :=
  ∃ earlier question, earlier ++ [question] <+: questions ∧
    ∃ visiting memo,
      s.Call model (s.memoAfter model earlier) question.enclosing question.position
        visiting enclosing p memo ∧
      memo.lookup p = none ∧
      ((s.memoLayout model visiting enclosing p).run memo).1 = (layout, false)

/-- The layout is valid for the fields of the message at `p`, with the extents that they have inside
`enclosing` while `memo` is remembered. -/
def Fits (s : Schema) (model : DataModel) (memo : Memo) (enclosing : List Position) (p : Position)
    (layout : Layout) : Prop :=
  ∃ members, s.FieldExtents model [p] (p :: enclosing) memo (s.fieldsAt p) members ∧
    layout.Places members

/-- The layout of the message at `p` was stored by some call, for proper members that the memo
settles. -/
structure Accounted (s : Schema) (model : DataModel) (questions : List Question) (memo : Memo)
    (enclosing : List Position) (p : Position) (layout : Layout) : Prop where
  stored : s.Stored model questions enclosing p layout
  members : ∃ members, List.Forall₂ (s.FirmExtent model memo enclosing p) (s.fieldsAt p) members ∧
    (∀ e ∈ members, e.Proper) ∧ layout = Record.layout members

/-- Every remembered layout is accounted for. -/
def Accounts (s : Schema) (model : DataModel) (questions : List Question) (memo : Memo) : Prop :=
  ∀ p layout, memo.lookup p = some layout →
    ∃ enclosing, s.Accounted model questions memo enclosing p layout

section Accounting

variable {questions more : List Question} {enclosing : List Position} {p : Position}
  {layout : Layout} {memo memo' : Memo}

theorem Accounted.mono_questions (h : s.Accounted model questions memo enclosing p layout)
    (hmore : questions <+: more) : s.Accounted model more memo enclosing p layout := by
  obtain ⟨⟨earlier, question, hquestion, hcall⟩, hmembers⟩ := h
  exact ⟨⟨earlier, question, hquestion.trans hmore, hcall⟩, hmembers⟩

theorem Accounts.mono_questions (h : s.Accounts model questions memo) (hmore : questions <+: more) :
    s.Accounts model more memo := by
  intro p layout hlookup
  obtain ⟨enclosing, haccounted⟩ := h p layout hlookup
  exact ⟨enclosing, haccounted.mono_questions hmore⟩

theorem Accounted.mono (h : s.Accounted model questions memo enclosing p layout)
    {without : List Position} (hgrows : Grows without memo memo') :
    s.Accounted model questions memo' enclosing p layout := by
  obtain ⟨hstored, members, hfirm, hproper, hlayout⟩ := h
  exact ⟨hstored, members, hfirm.imp fun f e he ↦ he.mono hgrows, hproper, hlayout⟩

theorem Accounted.proper (h : s.Accounted model questions memo enclosing p layout) :
    layout.extent.Proper := by
  obtain ⟨-, members, -, hproper, rfl⟩ := h
  exact Record.proper_layout hproper

/-- A layout that is accounted for fits the fields as long as it is remembered. -/
theorem Accounted.fits (h : s.Accounted model questions memo enclosing p layout) :
    s.Fits model memo enclosing p layout := by
  obtain ⟨-, members, hfirm, hproper, rfl⟩ := h
  exact ⟨members, fieldExtents_of_firm hfirm, Record.layout_places hproper⟩

/-- A layout that is new to the memo leaves those that are there accounted for. -/
theorem Accounts.cons (hmemo : s.Accounts model questions memo) (hunknown : memo.lookup p = none)
    (hp : s.Accounted model questions memo enclosing p layout) :
    s.Accounts model questions ((p, layout) :: memo) := by
  have hgrows : Grows [] memo ((p, layout) :: memo) :=
    (Grows.refl [p] memo).cons List.not_mem_nil hunknown layout
  intro q known h
  by_cases hq : q = p
  · subst q
    obtain rfl : layout = known := by simpa using h
    exact ⟨enclosing, hp.mono hgrows⟩
  · rw [List.lookup_cons, beq_false_of_ne hq] at h
    obtain ⟨enclosing', haccounted⟩ := hmemo q known h
    exact ⟨enclosing', haccounted.mono hgrows⟩

end Accounting

/-! ## The walk of one question -/

variable {earlier : List Question} {question : Question} {visiting enclosing : List Position}
  {p : Position} {memo : Memo}

/-- The call stores its layout if no message around the one at `p` takes part in it. -/
theorem accounted_of_independent
    (hcall : s.Call model (s.memoAfter model earlier) question.enclosing question.position
      visiting enclosing p memo)
    (hunknown : memo.lookup p = none)
    (hproper : ∀ e ∈ s.callExtents model visiting enclosing p memo, e.Proper)
    (hindependent : ∀ member ∈ (((s.fieldsAt p).mapM
      (s.memoMember model (p :: visiting) (p :: enclosing))).run memo).1, member.2 = false) :
    s.Accounted model (earlier ++ [question])
      (((s.fieldsAt p).mapM (s.memoMember model (p :: visiting) (p :: enclosing))).run memo).2
      enclosing p (Record.layout (s.callExtents model visiting enclosing p memo)) where
  stored := by
    refine ⟨earlier, question, List.prefix_refl _, visiting, memo, hcall, hunknown, ?_⟩
    have hany : (((s.fieldsAt p).mapM
        (s.memoMember model (p :: visiting) (p :: enclosing))).run memo).1.any (·.2) = false := by
      simpa using hindependent
    rw [memoLayout_run_unknown hunknown]
    exact congrArg (Prod.mk _) hany
  members := ⟨_, firmExtents_memoMembers rfl hindependent, hproper, rfl⟩

theorem carries_accounts (s : Schema) (model : DataModel) (earlier : List Question)
    (question : Question) :
    s.Carries model (s.memoAfter model earlier) question.enclosing question.position
      (s.Accounts model (earlier ++ [question])) Extent.Proper where
  fixed _ _ _ := proper_of_storage
  pointer := model.proper_pointer
  remembered memo p layout hmemo hlookup := by
    obtain ⟨_, haccounted⟩ := hmemo p layout hlookup
    exact haccounted.proper
  record _ := Record.proper_layout
  stored visiting enclosing p memo hcall hunknown hproper hindependent hmemo := by
    refine hmemo.cons ?_ (accounted_of_independent hcall hunknown hproper hindependent)
    -- the message itself was being laid out while its fields were measured
    have hgrows := s.grows_memoMembers model (p :: visiting) (p :: enclosing) memo (s.fieldsAt p)
    rw [hgrows p (.inl List.mem_cons_self), hunknown]

/-! ## Sequences of questions -/

theorem memoAfter_concat (s : Schema) (model : DataModel) (earlier : List Question)
    (question : Question) :
    s.memoAfter model (earlier ++ [question]) =
      ((s.answer model question).run (s.memoAfter model earlier)).2 := by
  rw [memoAfter, run_mapM_concat]
  rfl

theorem accounts_memoAfter (s : Schema) (model : DataModel) (questions : List Question) :
    s.Accounts model questions (s.memoAfter model questions) := by
  induction questions using List.reverseRecOn with
  | nil =>
      intro p layout h
      exact nomatch (h : ([] : Memo).lookup p = some layout)
  | append_singleton earlier question ih =>
      rw [memoAfter_concat]
      have hmemo := ih.mono_questions (List.prefix_append earlier [question])
      exact ((s.carries_accounts model earlier question).memoLayout _ _ _ _ .start hmemo).2

/-- The memo holds the messages' own layouts as long as all questions name the true scopes. -/
theorem remembers_memoAfter {questions : List Question}
    (h : ∀ q ∈ questions, q.enclosing = q.position.ancestors) :
    s.Remembers model (s.memoAfter model questions) := by
  induction questions using List.reverseRecOn with
  | nil => exact remembers_nil
  | append_singleton earlier question ih =>
      rw [List.forall_mem_append, List.forall_mem_singleton] at h
      rw [memoAfter_concat, answer, h.2]
      exact (s.yields_layoutAt model question.position _ (ih h.1)).2

theorem Stored.enclosing_eq {questions : List Question} {layout : Layout}
    (h : s.Stored model questions enclosing p layout)
    (htrue : ∀ q ∈ questions, q.enclosing = q.position.ancestors) : enclosing = p.ancestors := by
  obtain ⟨earlier, question, hquestions, visiting, memo, hcall, -⟩ := h
  have hbefore : ∀ q ∈ earlier ++ [question], q.enclosing = q.position.ancestors :=
    fun q hq ↦ htrue q (hquestions.subset hq)
  rw [List.forall_mem_append, List.forall_mem_singleton] at hbefore
  rw [hbefore.2] at hcall
  exact (hcall.invariant (remembers_memoAfter hbefore.1)).1

theorem answerAfter_of_known {layout : Layout}
    (h : (s.memoAfter model earlier).lookup question.position = some layout) :
    s.answerAfter model earlier question = layout := by
  have hrun : s.answerAfter model earlier question =
      ((s.memoLayout model [] question.enclosing question.position).run
        (s.memoAfter model earlier)).1.1 := rfl
  rw [hrun, memoLayout_run_known h]

theorem answerAfter_of_unknown
    (h : (s.memoAfter model earlier).lookup question.position = none) :
    s.answerAfter model earlier question =
      Record.layout (s.callExtents model [] question.enclosing question.position
        (s.memoAfter model earlier)) := by
  have hrun : s.answerAfter model earlier question =
      ((s.memoLayout model [] question.enclosing question.position).run
        (s.memoAfter model earlier)).1.1 := rfl
  rw [hrun, memoLayout_run_unknown h]
  rfl

theorem fits_of_unknown (h : (s.memoAfter model earlier).lookup question.position = none) :
    s.Fits model (s.memoAfter model earlier) question.enclosing question.position
      (s.answerAfter model earlier question) := by
  have hmemo :=
    (s.accounts_memoAfter model earlier).mono_questions (List.prefix_append earlier [question])
  have hproper := (s.carries_accounts model earlier question).callExtents .start h hmemo
  rw [answerAfter_of_unknown h]
  exact ⟨_, s.fieldExtents_memoMembers model [question.position] _ _ _,
    Record.layout_places hproper⟩

theorem Fits.length_offsets {layout : Layout} (h : s.Fits model memo enclosing p layout) :
    layout.offsets.length = (s.fieldsAt p).length := by
  obtain ⟨members, hmembers, hplaces⟩ := h
  rw [hplaces.length_offsets, hmembers.length_eq]

/-- Every answer is the layout of a record, cycles included and whatever was asked before: with one
offset for each field, and valid for the extents that the types of the fields have.  The types are
looked up in the scopes of the question, or in those of the call that stored the layout if it was
remembered.  These are the scopes around the message if all questions name the true ones. -/
theorem answers_fit_field_types (s : Schema) (model : DataModel) (earlier : List Question)
    (question : Question) :
    ∃ enclosing : List Position,
      ((s.memoAfter model earlier).lookup question.position = none ∧
          enclosing = question.enclosing ∨
        s.Stored model earlier enclosing question.position
          (s.answerAfter model earlier question)) ∧
      ((∀ q ∈ earlier ++ [question], q.enclosing = q.position.ancestors) →
        enclosing = question.position.ancestors) ∧
      (s.answerAfter model earlier question).offsets.length =
        (s.fieldsAt question.position).length ∧
      s.Fits model (s.memoAfter model earlier) enclosing question.position
        (s.answerAfter model earlier question) := by
  cases hlookup : (s.memoAfter model earlier).lookup question.position with
  | some layout =>
      obtain ⟨enclosing, haccounted⟩ := s.accounts_memoAfter model earlier _ layout hlookup
      rw [answerAfter_of_known hlookup]
      refine ⟨enclosing, .inr haccounted.stored, fun htrue ↦ ?_, haccounted.fits.length_offsets,
        haccounted.fits⟩
      exact haccounted.stored.enclosing_eq fun q hq ↦ htrue q (List.mem_append_left _ hq)
  | none =>
      have hfits := fits_of_unknown hlookup
      refine ⟨question.enclosing, .inl ⟨rfl, rfl⟩, fun htrue ↦ ?_, hfits.length_offsets, hfits⟩
      exact htrue question (List.mem_append_right _ List.mem_cons_self)

/-! ## Foreign scopes -/

/-- The last message refers to a type of which there is one at the top level and one inside another
message. -/
def twoTypes : Schema where
  syntaxVersion := "proto3"
  package := "p"
  imports := []
  messages := [
    ⟨"T", 1, [.declare "int64" "x" 1 false 2], [], []⟩,
    ⟨"Outer", 3, [], [⟨"T", 4, [.declare "bool" "b" 1 false 5], [], []⟩], []⟩,
    ⟨"M", 6, [.declare "T" "t" 1 false 7, .declare "bool" "c" 2 false 8], [], []⟩]
  enums := []

theorem memoLayout_twoTypes_inner :
    (twoTypes.memoLayout .lp64 [[2]] [[1]] [1, 0]).run [] =
      ((⟨[0], 1, 1⟩, false), [([1, 0], ⟨[0], 1, 1⟩)]) := by
  have hb : twoTypes.storage .lp64 [[1, 0], [1]] (.declare "bool" "b" 1 false 5) =
      .fixed ⟨1, 1⟩ := by decide +kernel
  have hfields : twoTypes.fieldsAt [1, 0] = [.declare "bool" "b" 1 false 5] := rfl
  rw [memoLayout_run_unknown rfl, hfields, run_mapM_cons, memoMember_fixed hb]
  rfl

theorem memoAfter_twoTypes :
    twoTypes.memoAfter .lp64 [⟨[[1]], [2]⟩] =
      [([2], ⟨[0, 1], 2, 1⟩), ([1, 0], ⟨[0], 1, 1⟩)] := by
  have ht : twoTypes.storage .lp64 [[2], [1]] (.declare "T" "t" 1 false 7) =
      .embedded [[1]] [1, 0] := by decide +kernel
  have hc : twoTypes.storage .lp64 [[2], [1]] (.declare "bool" "c" 2 false 8) =
      .fixed ⟨1, 1⟩ := by decide +kernel
  have hfields : twoTypes.fieldsAt [2] =
      [.declare "T" "t" 1 false 7, .declare "bool" "c" 2 false 8] := rfl
  have hrun : twoTypes.memoAfter .lp64 [⟨[[1]], [2]⟩] =
      ((twoTypes.memoLayout .lp64 [] [[1]] [2]).run []).2 := rfl
  rw [hrun, memoLayout_run_unknown rfl, hfields, run_mapM_cons, run_mapM_cons,
    memoMember_fresh ht (by decide), memoMember_fixed hc, StateT.run_bind,
    memoLayout_twoTypes_inner]
  rfl

theorem memoLayout_twoTypes_outer {memo : Memo} (h : memo.lookup [0] = none) :
    ((twoTypes.memoLayout .lp64 [[2]] [] [0]).run memo).1.1 = ⟨[0], 8, 8⟩ := by
  have hx : twoTypes.storage .lp64 [[0]] (.declare "int64" "x" 1 false 2) = .fixed ⟨8, 8⟩ := by
    decide +kernel
  have hfields : twoTypes.fieldsAt [0] = [.declare "int64" "x" 1 false 2] := rfl
  have hlayout : Record.layout [⟨8, 8⟩] = ⟨[0], 8, 8⟩ := by decide
  rw [memoLayout_run_unknown h, hfields, run_mapM_cons, memoMember_fixed hx, ← hlayout]
  rfl

/-- Inside its own scopes the field of type `T` takes up eight bytes. -/
theorem extent_twoTypes {memo memo' : Memo} (hunknown : memo.lookup [0] = none) {e : Extent}
    (h : twoTypes.FieldExtent .lp64 [[2]] [[2]] memo (.declare "T" "t" 1 false 7) e memo') :
    e = ⟨8, 8⟩ := by
  have hreference : (Field.declare "T" "t" 1 false 7).scalar? = none := by decide +kernel
  have hfound : twoTypes.resolve? [[2]] "T" = some (.message [] [0]) := by decide +kernel
  cases h with
  | array repeated => cases repeated
  | scalar _ named => cases hreference.symm.trans named
  | enumeration _ _ found => cases hfound.symm.trans found
  | unknown _ _ found => cases hfound.symm.trans found
  | visited _ _ found around =>
      cases hfound.symm.trans found
      exact absurd around (by decide)
  | message _ _ found _ made =>
      cases hfound.symm.trans found
      have hlayout := memoLayout_twoTypes_outer hunknown
      rw [made] at hlayout
      exact congrArg Layout.extent hlayout

/-- After a question for the last message inside a scope that is not around it, the answer inside
its own scopes is the remembered layout, in which there is no room for the type of its field. -/
theorem foreign_scopes_misfit_fields :
    [1] ∈ twoTypes.positions ∧ Position.ancestors [2] = [] ∧
      twoTypes.answerAfter .lp64 [⟨[[1]], [2]⟩] ⟨[], [2]⟩ = ⟨[0, 1], 2, 1⟩ ∧
      ¬ twoTypes.Fits .lp64 (twoTypes.memoAfter .lp64 [⟨[[1]], [2]⟩]) [] [2] ⟨[0, 1], 2, 1⟩ := by
  rw [memoAfter_twoTypes]
  refine ⟨by decide, by decide, ?_, ?_⟩
  · apply answerAfter_of_known
    rw [memoAfter_twoTypes]
    rfl
  · rintro ⟨members, hmembers, hplaces⟩
    cases hmembers with
    | cons first rest =>
        obtain rfl := extent_twoTypes rfl first
        exact absurd (hplaces.align_dvd_align _ List.mem_cons_self) (by decide)

end Schema

end ProtoHeader

import ProtoHeader.Proofs.HeaderLayout
import ProtoHeader.Proofs.RecordLayout

/-!
# Flattened leaves

Following members that are held by value, every byte of a class is accounted for by *leaves*:
fields whose storage does not depend on the schema.  In a settled message the extent of such a
member is that of the class of the same header, so that offsets along a path add up to where the
leaf really stands.

Main statement: `embedded_layouts_consistent`.
-/

namespace ProtoHeader

open Relation

/-- A leaf below the class at `p`: the fields that lead to it, where its bytes start in that class,
and its extent.  The offsets along the way are those that the header gives. -/
inductive Leaf (s : Schema) (h : Header) : Position → List ℕ → ℕ → Extent → Prop
  | field {p : Position} {c : ClassDecl} {i offset : ℕ} {f : Field} {extent : Extent}
      (cls : h.classAt? p = some c) (start : c.offsets[i]? = some offset)
      (fld : (s.fieldsAt p)[i]? = some f)
      (stored : s.storage h.model p.scopes f = .fixed extent) :
      Leaf s h p [i] offset extent
  | inside {p q : Position} {c : ClassDecl} {i offset inner : ℕ} {f : Field} {extent : Extent}
      {enclosing : List Position} {path : List ℕ}
      (cls : h.classAt? p = some c) (start : c.offsets[i]? = some offset)
      (fld : (s.fieldsAt p)[i]? = some f)
      (stored : s.storage h.model p.scopes f = .embedded enclosing q)
      (leaf : Leaf s h q path inner extent) :
      Leaf s h p (i :: path) (offset + inner) extent

namespace Schema

variable {s : Schema} {options : Header.Options} {p q : Position} {c : ClassDecl} {f : Field}
  {i offset offset' : ℕ} {path path' : List ℕ} {extent extent' : Extent}

theorem layout_of_classAt? (hc : (s.header options).classAt? p = some c) :
    c.layout = s.freshLayout options.model p := by
  rw [header_classAt?] at hc
  obtain ⟨m, -, rfl⟩ := Option.map_eq_some_iff.mp hc
  exact Header.layout_classTree _ p m

theorem exists_classAt? (options : Header.Options) (hq : q ∈ s.positions) :
    ∃ d, (s.header options).classAt? q = some d := by
  obtain ⟨m, hm⟩ := Option.isSome_iff_exists.mp ((s.mem_positions_iff q).mp hq)
  exact ⟨_, by rw [header_classAt?, hm, Option.map_some]⟩

theorem regular_plainLayout (s : Schema) (model : DataModel) (visiting : List Position)
    (p : Position) : (s.plainLayout model visiting p.ancestors p).1.extent.Regular := by
  induction visiting, p using walk_induction s with
  | step visiting p ih =>
      rw [plainLayout_ancestors]
      apply Extent.Regular.layout
      simp only [List.map_map, List.mem_map]
      rintro e ⟨f, hf, rfl⟩
      cases hs : s.storage model p.scopes f with
      | fixed extent => simpa [plainMember_fixed hs] using regular_of_storage hs
      | embedded enclosing q =>
          obtain rfl := anchored_of_storage hs
          by_cases hq : q ∈ p :: visiting
          · simpa [plainMember_visited hs hq] using model.regular_pointer
          · simpa [plainMember_fresh hs hq] using ih q (contains_of_storage hf hs) hq

theorem regular_memberExtent (s : Schema) (model : DataModel) (p : Position) (f : Field) :
    (s.memberExtent model p f).Regular := by
  cases hs : s.storage model p.scopes f with
  | fixed extent => simpa [memberExtent, hs] using regular_of_storage hs
  | embedded enclosing q =>
      simpa [memberExtent, hs, freshLayout] using s.regular_plainLayout model [] q

/-! ## Members of a settled class -/

theorem layout_of_settled (hp : s.Settled p) (hc : (s.header options).classAt? p = some c) :
    c.layout = Record.layout ((s.fieldsAt p).map (s.memberExtent options.model p)) := by
  rw [layout_of_classAt? hc, freshLayout_of_settled s options.model hp]

theorem memberExtents_eq (s : Schema) (model : DataModel) (p : Position) :
    (s.fieldsAt p).map (s.memberExtent model p) =
      ((s.fieldsAt p).map (s.storage model p.scopes)).map
        (Storage.extent (s.freshLayout model)) := by
  rw [List.map_map]
  rfl

theorem getElem?_offsets_of_settled (hp : s.Settled p)
    (hc : (s.header options).classAt? p = some c) (ho : c.offsets[i]? = some offset) :
    (Record.offsets ((s.fieldsAt p).map (s.memberExtent options.model p)))[i]? =
      some offset := by
  rw [← Record.offsets_layout, ← layout_of_settled hp hc]
  exact ho

theorem getElem?_memberExtents (model : DataModel) (hf : (s.fieldsAt p)[i]? = some f) :
    ((s.fieldsAt p).map (s.memberExtent model p))[i]? = some (s.memberExtent model p f) := by
  rw [List.getElem?_map, hf, Option.map_some]

theorem member_bounds (hp : s.Settled p) (hc : (s.header options).classAt? p = some c)
    (ho : c.offsets[i]? = some offset) (hf : (s.fieldsAt p)[i]? = some f) :
    (s.memberExtent options.model p f).align ∣ offset ∧
      (s.memberExtent options.model p f).align ∣ c.align ∧
      offset + (s.memberExtent options.model p f).size ≤ c.size := by
  have hoffset := getElem?_offsets_of_settled hp hc ho
  have hmember := getElem?_memberExtents options.model hf
  have hlayout := layout_of_settled hp hc
  have hregular : ∀ e ∈ (s.fieldsAt p).map (s.memberExtent options.model p), e.Regular := by
    simp only [List.mem_map]
    rintro e ⟨g, -, rfl⟩
    exact s.regular_memberExtent options.model p g
  refine ⟨?_, ?_, ?_⟩
  · rw [← (s.regular_memberExtent options.model p f).alignment_eq]
    exact Record.dvd_of_getElem?_offsetsFrom hmember hoffset
  · have hdvd := Extent.Regular.align_dvd_layout hregular (List.mem_of_getElem? hmember)
    rwa [← hlayout] at hdvd
  · have hend := Record.add_size_le_endOf hmember hoffset
    have hsize := Record.endOf_le_size ((s.fieldsAt p).map (s.memberExtent options.model p))
    rw [← hlayout] at hsize
    exact Nat.le_trans hend hsize

theorem member_ends_before (hp : s.Settled p) (hc : (s.header options).classAt? p = some c)
    {j : ℕ} (hij : i < j) (ho : c.offsets[i]? = some offset) (hf : (s.fieldsAt p)[i]? = some f)
    (ho' : c.offsets[j]? = some offset') :
    offset + (s.memberExtent options.model p f).size ≤ offset' :=
  Record.add_size_le_of_getElem?_offsetsFrom hij (getElem?_memberExtents _ hf)
    (getElem?_offsets_of_settled hp hc ho) (getElem?_offsets_of_settled hp hc ho')

theorem memberExtent_fixed (hs : s.storage options.model p.scopes f = .fixed extent) :
    s.memberExtent options.model p f = extent := by
  simp [memberExtent, hs]

theorem memberExtent_embedded {enclosing : List Position} {d : ClassDecl}
    (hs : s.storage options.model p.scopes f = .embedded enclosing q)
    (hd : (s.header options).classAt? q = some d) :
    s.memberExtent options.model p f = ⟨d.size, d.align⟩ := by
  rw [memberExtent, hs, Storage.extent, ← layout_of_classAt? hd]
  rfl

theorem class_of_storage {enclosing : List Position}
    (hf : (s.fieldsAt p)[i]? = some f)
    (hs : s.storage options.model p.scopes f = .embedded enclosing q) :
    s.Contains p q ∧ ∃ d, (s.header options).classAt? q = some d := by
  have hq := contains_of_storage (List.mem_of_getElem? hf) hs
  exact ⟨hq, exists_classAt? options hq.mem_positions⟩

end Schema

namespace Leaf

variable {s : Schema} {options : Header.Options} {p : Position} {c : ClassDecl}
  {offset offset' : ℕ} {path path' : List ℕ} {extent extent' : Extent}

/-- A leaf stands at a multiple of its alignment inside the class. -/
theorem bounds (hp : s.Settled p) (hc : (s.header options).classAt? p = some c)
    (hleaf : Leaf s (s.header options) p path offset extent) :
    extent.align ∣ offset ∧ extent.align ∣ c.align ∧ offset + extent.size ≤ c.size := by
  induction hleaf generalizing c with
  | field cls start fld stored =>
      obtain rfl := Option.some.inj (cls.symm.trans hc)
      have hextent := Schema.memberExtent_fixed stored
      exact hextent ▸ Schema.member_bounds hp hc start fld
  | inside cls start fld stored _ ih =>
      obtain rfl := Option.some.inj (cls.symm.trans hc)
      obtain ⟨hq, d, hd⟩ := Schema.class_of_storage fld stored
      obtain ⟨hstart, halign, hsize⟩ := ih (hp.of_contains hq) hd
      obtain ⟨hstart', halign', hsize'⟩ := Schema.member_bounds hp hc start fld
      rw [Schema.memberExtent_embedded stored hd] at hstart' halign' hsize'
      refine ⟨Nat.dvd_add (Nat.dvd_trans halign hstart') hstart,
        Nat.dvd_trans halign halign', ?_⟩
      simp only at hsize'
      omega

/-- The bytes of a leaf lie inside the first member on the way to it. -/
theorem within (hp : s.Settled p) (hc : (s.header options).classAt? p = some c)
    (hleaf : Leaf s (s.header options) p path offset extent) :
    ∃ i rest start f, path = i :: rest ∧ c.offsets[i]? = some start ∧
      (s.fieldsAt p)[i]? = some f ∧ start ≤ offset ∧
      offset + extent.size ≤ start + (s.memberExtent options.model p f).size := by
  cases hleaf with
  | @field _ _ i _ f _ cls start fld stored =>
      obtain rfl := Option.some.inj (cls.symm.trans hc)
      have hextent := Schema.memberExtent_fixed stored
      exact ⟨i, [], offset, f, rfl, start, fld, Nat.le_refl _, hextent ▸ Nat.le_refl _⟩
  | @inside _ q _ i first inner f _ _ path cls start fld stored leaf =>
      obtain rfl := Option.some.inj (cls.symm.trans hc)
      obtain ⟨hq, d, hd⟩ := Schema.class_of_storage fld stored
      have hinner := (leaf.bounds (hp.of_contains hq) hd).2.2
      have hextent := congrArg Extent.size (Schema.memberExtent_embedded stored hd)
      refine ⟨i, path, first, f, rfl, start, fld, Nat.le_add_right _ _, ?_⟩
      simp only at hextent
      omega

theorem ends_before {i j : ℕ} (hp : s.Settled p) (hc : (s.header options).classAt? p = some c)
    (hij : i < j) (hleaf : Leaf s (s.header options) p (i :: path) offset extent)
    (hleaf' : Leaf s (s.header options) p (j :: path') offset' extent') :
    offset + extent.size ≤ offset' := by
  obtain ⟨_, _, first, f, hpath, hfirst, hf, -, hend⟩ := hleaf.within hp hc
  obtain ⟨_, _, second, g, hpath', hsecond, -, hstart, -⟩ := hleaf'.within hp hc
  obtain ⟨rfl, rfl⟩ := List.cons.inj hpath
  obtain ⟨rfl, rfl⟩ := List.cons.inj hpath'
  have horder := Schema.member_ends_before hp hc hij hfirst hf hsecond
  omega

theorem apart {i j : ℕ} (hp : s.Settled p) (hc : (s.header options).classAt? p = some c)
    (hij : i ≠ j) (hleaf : Leaf s (s.header options) p (i :: path) offset extent)
    (hleaf' : Leaf s (s.header options) p (j :: path') offset' extent') :
    offset + extent.size ≤ offset' ∨ offset' + extent'.size ≤ offset := by
  rcases Nat.lt_or_gt_of_ne hij with hlt | hgt
  · exact .inl (hleaf.ends_before hp hc hlt hleaf')
  · exact .inr (hleaf'.ends_before hp hc hgt hleaf)

/-- Two paths to leaves part at a first member, or stay together into the same class. -/
theorem disjoint (hp : s.Settled p)
    (hleaf : Leaf s (s.header options) p path offset extent)
    (hleaf' : Leaf s (s.header options) p path' offset' extent') (hne : path ≠ path') :
    offset + extent.size ≤ offset' ∨ offset' + extent'.size ≤ offset := by
  induction hleaf generalizing path' offset' extent' with
  | @field p c i offset f extent cls start fld stored =>
      have hself : Leaf s (s.header options) p [i] offset extent := .field cls start fld stored
      cases hleaf' with
      | @field _ _ j _ _ _ cls' start' fld' stored' =>
          have hij : i ≠ j := fun heq ↦ hne (by rw [heq])
          exact hself.apart hp cls hij (.field cls' start' fld' stored')
      | @inside _ _ _ j _ _ _ _ _ _ cls' start' fld' stored' leaf' =>
          by_cases hij : i = j
          · subst hij
            obtain rfl := Option.some.inj (fld.symm.trans fld')
            exact nomatch stored.symm.trans stored'
          · exact hself.apart hp cls hij (.inside cls' start' fld' stored' leaf')
  | @inside p q c i offset inner f extent enclosing path cls start fld stored leaf ih =>
      have hself := Leaf.inside cls start fld stored leaf
      cases hleaf' with
      | @field _ _ j _ _ _ cls' start' fld' stored' =>
          by_cases hij : i = j
          · subst hij
            obtain rfl := Option.some.inj (fld.symm.trans fld')
            exact nomatch stored.symm.trans stored'
          · exact hself.apart hp cls hij (.field cls' start' fld' stored')
      | @inside _ _ _ j _ _ _ _ _ _ cls' start' fld' stored' leaf' =>
          by_cases hij : i = j
          · subst hij
            obtain rfl := Option.some.inj (cls.symm.trans cls')
            obtain rfl := Option.some.inj (start.symm.trans start')
            obtain rfl := Option.some.inj (fld.symm.trans fld')
            obtain ⟨rfl, rfl⟩ := Storage.embedded.inj (stored.symm.trans stored')
            have hq := (Schema.class_of_storage fld stored).1
            have hinner := ih (hp.of_contains hq) leaf' fun heq ↦ hne (by rw [heq])
            omega
          · exact hself.apart hp cls hij (.inside cls' start' fld' stored' leaf')

end Leaf

namespace Schema

/-- Where no cycle of containment can be reached, a member that is held by value has the extent of
its own class in every call that lays the message out, and the leaves below the message stand
aligned, inside it and apart from each other. -/
theorem embedded_layouts_consistent (s : Schema) (options : Header.Options) (p : Position)
    (c : ClassDecl) (hclass : (s.header options).classAt? p = some c)
    (hacyclic : ¬ ∃ q, ReflTransGen s.Contains p q ∧ TransGen s.Contains q q) :
    (∀ (queries : List Position) (start : Position) (visiting enclosing : List Position)
        (memo : Memo),
      s.Call options.model ((queries.mapM (s.layoutAt options.model)).run []).2
        start.ancestors start visiting enclosing p memo →
      ∀ (i : ℕ) (f : Field) (enclosing' : List Position) (q : Position),
        (s.fieldsAt p)[i]? = some f →
        s.storage options.model p.scopes f = .embedded enclosing' q →
        ∃ d, (s.header options).classAt? q = some d ∧
          (s.callExtents options.model visiting enclosing p memo)[i]? =
            some ⟨d.size, d.align⟩) ∧
    c.offsets.length = (s.fieldsAt p).length ∧
    (∀ path offset extent, Leaf s (s.header options) p path offset extent →
      extent.align ∣ offset ∧ offset + extent.size ≤ c.size) ∧
    (∀ path offset extent path' offset' extent',
      Leaf s (s.header options) p path offset extent →
      Leaf s (s.header options) p path' offset' extent' → path ≠ path' →
      offset + extent.size ≤ offset' ∨ offset' + extent'.size ≤ offset) := by
  have hp := settled_iff_acyclic.mpr hacyclic
  refine ⟨?_, ?_, ?_, ?_⟩
  · intro queries start visiting enclosing memo hcall i f enclosing' q hf hs
    obtain ⟨-, d, hd⟩ := class_of_storage hf hs
    have hknown := (s.yields_layoutsAt options.model queries [] remembers_nil).2
    refine ⟨d, hd, ?_⟩
    rw [hcall.extents_eq hknown hp, getElem?_memberExtents options.model hf,
      memberExtent_embedded hs hd]
  · have hoffsets := congrArg (·.offsets.length) (layout_of_settled hp hclass)
    simpa [ClassDecl.layout, Record.offsets, Record.length_offsetsFrom] using hoffsets
  · intro path offset extent hleaf
    obtain ⟨hstart, -, hend⟩ := hleaf.bounds hp hclass
    exact ⟨hstart, hend⟩
  · intro path offset extent path' offset' extent' hleaf hleaf' hne
    exact hleaf.disjoint hp hleaf' hne

/-! ## A message with another one inside -/

/-- A box holds an item after a single byte. -/
def boxed : Schema where
  syntaxVersion := "proto3"
  package := "goods"
  imports := []
  messages :=
    [⟨"Box", 1, [.declare "bool" "open" 1 false 2, .declare "Item" "item" 2 false 3], [], []⟩,
      ⟨"Item", 5, [.declare "int64" "weight" 1 false 6, .declare "bool" "fragile" 2 false 7],
        [], []⟩]
  enums := []

theorem storage_box : (boxed.fieldsAt [0]).map (boxed.storage .lp64 (Position.scopes [0])) =
    [.fixed ⟨1, 1⟩, .embedded [] [1]] := by
  decide +kernel

theorem storage_item : (boxed.fieldsAt [1]).map (boxed.storage .lp64 (Position.scopes [1])) =
    [.fixed ⟨8, 8⟩, .fixed ⟨1, 1⟩] := by
  decide +kernel

theorem settled_item : boxed.Settled [1] := by
  refine settled_of_members .lp64 fun f hf enclosing q hs ↦ ?_
  have hmem := List.mem_map_of_mem (f := boxed.storage .lp64 (Position.scopes [1])) hf
  simp [storage_item, hs] at hmem

theorem settled_box : boxed.Settled [0] := by
  refine settled_of_members .lp64 fun f hf enclosing q hs ↦ ?_
  have hmem := List.mem_map_of_mem (f := boxed.storage .lp64 (Position.scopes [0])) hf
  obtain ⟨-, rfl⟩ : enclosing = [] ∧ q = [1] := by simpa [storage_box, hs] using hmem
  exact settled_item

theorem freshLayout_item : boxed.freshLayout .lp64 [1] = ⟨[0, 8], 16, 8⟩ := by
  rw [freshLayout_of_settled _ _ settled_item, memberExtents_eq, storage_item]
  decide

theorem freshLayout_box : boxed.freshLayout .lp64 [0] = ⟨[0, 8], 24, 8⟩ := by
  rw [freshLayout_of_settled _ _ settled_box, memberExtents_eq, storage_box]
  simp only [List.map_cons, List.map_nil, Storage.extent, freshLayout_item]
  decide

/-- The second field of the item starts where the offsets of the item and of the field add up to. -/
theorem leaves_boxed : ∃ c, (boxed.header ⟨none, .lp64⟩).classAt? [0] = some c ∧ c.size = 24 ∧
    Leaf boxed (boxed.header ⟨none, .lp64⟩) [0] [0] 0 ⟨1, 1⟩ ∧
      Leaf boxed (boxed.header ⟨none, .lp64⟩) [0] [1, 1] (8 + 8) ⟨1, 1⟩ := by
  obtain ⟨c, hc⟩ := exists_classAt? (s := boxed) (q := [0]) ⟨none, .lp64⟩ (by decide +kernel)
  obtain ⟨d, hd⟩ := exists_classAt? (s := boxed) (q := [1]) ⟨none, .lp64⟩ (by decide +kernel)
  have hbox := (layout_of_classAt? hc).trans freshLayout_box
  have hitem := (layout_of_classAt? hd).trans freshLayout_item
  simp only [ClassDecl.layout, Layout.mk.injEq] at hbox hitem
  have hfield : boxed.storage .lp64 (Position.scopes [0]) (.declare "Item" "item" 2 false 3) =
      .embedded [] [1] := by
    decide +kernel
  refine ⟨c, hc, hbox.2.1, ?_, ?_⟩
  · exact .field hc (by simp [hbox]) rfl (by decide +kernel)
  · refine .inside hc (by simp [hbox]) rfl hfield ?_
    exact .field hd (by simp [hitem]) rfl (by decide +kernel)

theorem embedded_layouts_consistent_boxed :
    (¬ ∃ q, ReflTransGen boxed.Contains [0] q ∧ TransGen boxed.Contains q q) ∧
    ∃ c, (boxed.header ⟨none, .lp64⟩).classAt? [0] = some c ∧
      (∃ d, (boxed.header ⟨none, .lp64⟩).classAt? [1] = some d ∧
        (boxed.callExtents .lp64 [] [] [0] [])[1]? = some ⟨d.size, d.align⟩) ∧
      Leaf boxed (boxed.header ⟨none, .lp64⟩) [0] [0] 0 ⟨1, 1⟩ ∧
      Leaf boxed (boxed.header ⟨none, .lp64⟩) [0] [1, 1] 16 ⟨1, 1⟩ ∧
      1 ∣ 16 ∧ 16 + 1 ≤ c.size ∧ (0 + 1 ≤ 16 ∨ 16 + 1 ≤ 0) := by
  have hacyclic := settled_iff_acyclic.mp settled_box
  obtain ⟨c, hc, -, hfirst, hlast⟩ := leaves_boxed
  obtain ⟨hextents, -, hinside, hapart⟩ :=
    embedded_layouts_consistent boxed ⟨none, .lp64⟩ [0] c hc hacyclic
  have hitem := hextents [] [0] [] [] [] .start 1 _ [] [1] rfl (by decide +kernel)
  exact ⟨hacyclic, c, hc, hitem, hfirst, hlast, (hinside _ _ _ hlast).1, (hinside _ _ _ hlast).2,
    hapart _ _ _ _ _ _ hfirst hlast (by decide)⟩

end Schema

end ProtoHeader

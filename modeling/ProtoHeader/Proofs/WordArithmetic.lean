import ProtoHeader.Proofs.DoublingMessages
import ProtoHeader.Proofs.ValidLayouts

/-!
# Layouts in machine words

Sizes and offsets are exact numbers here, while a machine adds words of 64 bits.  A record is laid
out in words exactly if its size fits one.  All records that come up while a header is built lie
inside the records of its classes, cycles included, so that the sizes of the classes decide whether
every sum on the way is exact.  Messages that hold the one before twice have sizes that fit no word.
-/

namespace ProtoHeader

/-! ## Sums in a word -/

/-- The least number that does not fit a word. -/
def wordBound : ℕ :=
  2 ^ 64

/-- The sum, if it fits a word. -/
def addWord? (a b : ℕ) : Option ℕ :=
  if a + b < wordBound then some (a + b) else none

theorem addWord?_eq_some_iff {a b c : ℕ} :
    addWord? a b = some c ↔ a + b = c ∧ c < wordBound := by
  unfold addWord?
  split <;> grind

/-- The number moved up to a multiple of the alignment, if that fits a word. -/
def roundUpWord? (n align : ℕ) : Option ℕ :=
  addWord? n ((align - n % align) % align)

theorem roundUpWord?_eq_some_iff {n align m : ℕ} :
    roundUpWord? n align = some m ↔ roundUp n align = m ∧ m < wordBound :=
  addWord?_eq_some_iff

namespace Record

/-- The offsets of members of which the first may start at `cursor`, if the cursor stays within a
word. -/
def offsetsWord? (cursor : ℕ) : List Extent → Option (List ℕ)
  | [] => some []
  | e :: es => do
    let offset ← roundUpWord? cursor e.alignment
    let next ← addWord? offset e.size
    let rest ← offsetsWord? next es
    return offset :: rest

/-- The ends of members at the given offsets, if they fit words. -/
def endsWord? (offsets : List ℕ) (members : List Extent) : Option (List ℕ) :=
  (offsets.zip members).mapM fun member ↦ addWord? member.1 member.2.size

/-- The layout of a record, if every sum on the way fits a word. -/
def layoutWord? (members : List Extent) : Option Layout := do
  let offsets ← offsetsWord? 0 members
  if members.isEmpty then
    return ⟨offsets, 1, 1⟩
  let ends ← endsWord? offsets members
  let size ← roundUpWord? (ends.foldl max 0) (alignment members)
  return ⟨offsets, size, alignment members⟩

def ends (offsets : List ℕ) (members : List Extent) : List ℕ :=
  List.zipWith (fun offset e ↦ offset + e.size) offsets members

theorem offsetsWord?_eq_some_iff {cursor : ℕ} {members : List Extent} {found : List ℕ} :
    offsetsWord? cursor members = some found ↔
      offsetsFrom cursor members = found ∧ ∀ n ∈ ends found members, n < wordBound := by
  induction members generalizing cursor found with
  | nil => simp [offsetsWord?, offsetsFrom, ends, eq_comm]
  | cons e es ih =>
      simp only [offsetsWord?, Option.bind_eq_bind, Option.bind_eq_some_iff,
        roundUpWord?_eq_some_iff, addWord?_eq_some_iff, ih, offsetsFrom, Option.pure_def,
        Option.some.injEq]
      constructor
      · rintro ⟨_, ⟨rfl, -⟩, _, ⟨rfl, hend⟩, _, ⟨rfl, hrest⟩, rfl⟩
        exact ⟨rfl, List.forall_mem_cons.mpr ⟨hend, hrest⟩⟩
      · rintro ⟨rfl, hends⟩
        obtain ⟨hend, hrest⟩ := List.forall_mem_cons.mp hends
        exact ⟨_, ⟨rfl, Nat.lt_of_le_of_lt (Nat.le_add_right _ _) hend⟩, _, ⟨rfl, hend⟩, _,
          ⟨rfl, hrest⟩, rfl⟩

theorem endsWord?_eq_some_iff {offsets : List ℕ} {members : List Extent} {found : List ℕ} :
    endsWord? offsets members = some found ↔
      ends offsets members = found ∧ ∀ n ∈ ends offsets members, n < wordBound := by
  induction members generalizing offsets found with
  | nil => simp [endsWord?, ends, eq_comm]
  | cons e es ih =>
      cases offsets with
      | nil => simp [endsWord?, ends, eq_comm]
      | cons offset offsets =>
          have hcons : endsWord? (offset :: offsets) (e :: es) =
              (addWord? offset e.size).bind fun first ↦
                (endsWord? offsets es).bind fun rest ↦ some (first :: rest) := by
            simp only [endsWord?, List.zip_cons_cons, List.mapM_cons]
            rfl
          simp only [hcons, Option.bind_eq_some_iff, addWord?_eq_some_iff, ih, Option.some.injEq]
          constructor
          · rintro ⟨_, ⟨rfl, hend⟩, _, ⟨rfl, hrest⟩, rfl⟩
            exact ⟨rfl, List.forall_mem_cons.mpr ⟨hend, hrest⟩⟩
          · rintro ⟨rfl, hends⟩
            obtain ⟨hend, hrest⟩ := List.forall_mem_cons.mp hends
            exact ⟨_, ⟨rfl, hend⟩, _, ⟨rfl, hrest⟩, rfl⟩

theorem le_size_of_mem_ends {members : List Extent} {n : ℕ}
    (h : n ∈ ends (offsets members) members) : n ≤ (layout members).size :=
  Nat.le_trans (List.le_max_of_mem (List.mem_cons_of_mem 0 h)) (endOf_le_size members)

/-- A record is laid out in words if its size fits one, and then as without them. -/
theorem layoutWord?_eq_some_iff {members : List Extent} {found : Layout} :
    layoutWord? members = some found ↔ layout members = found ∧ found.size < wordBound := by
  cases members with
  | nil =>
      simp only [layoutWord?, offsetsWord?, layout, wordBound]
      constructor
      · rintro ⟨⟩
        exact ⟨rfl, by decide⟩
      · rintro ⟨rfl, -⟩
        rfl
  | cons e es =>
      have hlayout : layout (e :: es) = ⟨offsets (e :: es),
          roundUp (endOf (e :: es)) (alignment (e :: es)), alignment (e :: es)⟩ := rfl
      simp only [layoutWord?, List.isEmpty_cons, Bool.false_eq_true, if_false,
        Option.bind_eq_bind, Option.bind_eq_some_iff, offsetsWord?_eq_some_iff,
        endsWord?_eq_some_iff, roundUpWord?_eq_some_iff, Option.pure_def, Option.some.injEq]
      constructor
      · rintro ⟨_, ⟨rfl, -⟩, _, ⟨rfl, -⟩, _, ⟨rfl, hsize⟩, rfl⟩
        exact ⟨hlayout, hsize⟩
      · rintro ⟨rfl, hsize⟩
        have hends : ∀ n ∈ ends (offsets (e :: es)) (e :: es), n < wordBound :=
          fun n hn ↦ Nat.lt_of_le_of_lt (le_size_of_mem_ends hn) hsize
        exact ⟨_, ⟨rfl, hends⟩, _, ⟨rfl, hends⟩, _, ⟨rfl, hsize⟩, hlayout.symm⟩

theorem size_le_size_layout {members : List Extent} {e : Extent} (h : e ∈ members) :
    e.size ≤ (layout members).size := by
  obtain ⟨i, he⟩ := List.mem_iff_getElem?.mp h
  obtain ⟨hi, -⟩ := List.getElem?_eq_some_iff.mp he
  have hlength : i < (offsets members).length := by
    rwa [offsets, length_offsetsFrom]
  have hend := add_size_le_endOf he (List.getElem?_eq_getElem hlength)
  have hsize := endOf_le_size members
  omega

end Record

namespace Schema

/-! ## Records inside records -/

variable {s : Schema} {model : DataModel} {known memo : Memo}
  {outer visiting enclosing : List Position} {start p : Position}

/-- What a field takes up in a call is one of the extents of the call. -/
theorem mem_callExtents (model : DataModel) (visiting enclosing : List Position) (memo : Memo)
    {before after : List Field} {f : Field} (hfields : s.fieldsAt p = before ++ f :: after) :
    ((s.memoMember model (p :: visiting) (p :: enclosing) f).run
        ((before.mapM (s.memoMember model (p :: visiting) (p :: enclosing))).run memo).2).1.1 ∈
      s.callExtents model visiting enclosing p memo := by
  rw [callExtents, hfields, List.mapM_append, List.mapM_cons]
  exact List.mem_map_of_mem (List.mem_append_right _ List.mem_cons_self)

/-- No record that is laid out on the way is larger than the one that was asked for. -/
theorem Call.size_le (h : s.Call model known outer start visiting enclosing p memo)
    (hunknown : memo.lookup p = none) :
    (Record.layout (s.callExtents model visiting enclosing p memo)).size ≤
      ((s.memoLayout model [] outer start).run known).1.1.size := by
  induction h with
  | start =>
      rw [memoLayout_run_unknown hunknown]
      exact Nat.le_refl _
  | @member visiting enclosing enclosing' p q memo before after f _ unknown fields embedded fresh
      ih =>
      have hmem := mem_callExtents model visiting enclosing memo fields
      rw [memoMember_fresh embedded fresh, StateT.run_bind, memoLayout_run_unknown hunknown] at hmem
      exact Nat.le_trans (Record.size_le_size_layout hmem) (ih unknown)

/-! ## What is remembered was laid out -/

/-- All remembered layouts have the property. -/
def Keeps (P : Layout → Prop) (memo : Memo) : Prop :=
  ∀ p layout, memo.lookup p = some layout → P layout

theorem Keeps.cons {P : Layout → Prop} (hmemo : Keeps P memo) {layout : Layout} (h : P layout) :
    Keeps P ((p, layout) :: memo) := by
  intro q found hfound
  rw [List.lookup_cons] at hfound
  split at hfound
  · obtain rfl := Option.some.inj hfound
    exact h
  · exact hmemo q found hfound

/-- A property of every layout that is made on the way is one of all that is remembered. -/
theorem carries_keeps {P : Layout → Prop}
    (hmade : ∀ visiting enclosing p memo, s.Call model known outer start visiting enclosing p memo →
      memo.lookup p = none → P (Record.layout (s.callExtents model visiting enclosing p memo))) :
    s.Carries model known outer start (Keeps P) (fun _ ↦ True) where
  fixed _ _ _ _ := trivial
  pointer := trivial
  remembered _ _ _ _ _ := trivial
  record _ _ := trivial
  stored visiting enclosing p memo hcall hunknown _ _ hmemo :=
    hmemo.cons (hmade visiting enclosing p memo hcall hunknown)

/-! ## The records of a header -/

/-- What is remembered after the messages at the given positions have been laid out in order. -/
def memoOf (s : Schema) (model : DataModel) (positions : List Position) : Memo :=
  ((positions.mapM (s.layoutAt model)).run []).2

/-- A record with these members is laid out while the messages of the schema are, in the order of
their positions: in a call on the way to one of them, for a message not remembered by then. -/
def LaidOut (s : Schema) (model : DataModel) (members : List Extent) : Prop :=
  ∃ earlier start, earlier ++ [start] <+: s.positions ∧
    ∃ visiting enclosing p memo,
      s.Call model (s.memoOf model earlier) start.ancestors start visiting enclosing p memo ∧
      memo.lookup p = none ∧ members = s.callExtents model visiting enclosing p memo

theorem remembers_memoOf (s : Schema) (model : DataModel) (positions : List Position) :
    s.Remembers model (s.memoOf model positions) :=
  (s.yields_layoutsAt model positions [] remembers_nil).2

theorem memoOf_concat (s : Schema) (model : DataModel) (earlier : List Position)
    (start : Position) : s.memoOf model (earlier ++ [start]) =
      ((s.memoLayout model [] start.ancestors start).run (s.memoOf model earlier)).2 := by
  rw [memoOf, run_mapM_concat]
  rfl

theorem layout_memoOf (s : Schema) (model : DataModel) (earlier : List Position)
    (start : Position) :
    ((s.memoLayout model [] start.ancestors start).run (s.memoOf model earlier)).1.1 =
      s.freshLayout model start :=
  (s.yields_layoutAt model start _ (s.remembers_memoOf model earlier)).1

/-- Whatever is remembered on the way was laid out on the way. -/
theorem laidOut_of_memoOf {earlier : List Position} (hearlier : earlier <+: s.positions) :
    Keeps (fun layout ↦ ∃ members, s.LaidOut model members ∧ layout = Record.layout members)
      (s.memoOf model earlier) := by
  induction earlier using List.reverseRecOn with
  | nil =>
      intro p layout h
      exact nomatch (h : ([] : Memo).lookup p = some layout)
  | append_singleton earlier start ih =>
      rw [memoOf_concat]
      have hmemo := ih ((List.prefix_append earlier [start]).trans hearlier)
      refine ((carries_keeps ?_).memoLayout _ _ _ _ .start hmemo).2
      intro visiting enclosing p memo hcall hunknown
      exact ⟨_, ⟨earlier, start, hearlier, visiting, enclosing, p, memo, hcall, hunknown, rfl⟩, rfl⟩

/-- The layout of every message is that of a record that was laid out. -/
theorem exists_laidOut (model : DataModel) (hp : p ∈ s.positions) :
    ∃ members, s.LaidOut model members ∧ s.freshLayout model p = Record.layout members := by
  obtain ⟨earlier, later, hsplit⟩ := List.append_of_mem hp
  have hprefix : earlier ++ [p] <+: s.positions := ⟨later, by simp [hsplit]⟩
  have hlayout := s.layout_memoOf model earlier p
  cases hlookup : (s.memoOf model earlier).lookup p with
  | some layout =>
      rw [memoLayout_run_known hlookup] at hlayout
      rw [← hlayout]
      exact laidOut_of_memoOf ((List.prefix_append earlier [p]).trans hprefix) p layout hlookup
  | none =>
      rw [memoLayout_run_unknown hlookup] at hlayout
      exact ⟨_, ⟨earlier, p, hprefix, [], p.ancestors, p, _, .start, hlookup, rfl⟩, hlayout.symm⟩

/-- Every record that is laid out is no larger than some message. -/
theorem LaidOut.exists_size_le {members : List Extent} (h : s.LaidOut model members) :
    ∃ p ∈ s.positions, (Record.layout members).size ≤ (s.freshLayout model p).size := by
  obtain ⟨earlier, start, hprefix, visiting, enclosing, p, memo, hcall, hunknown, rfl⟩ := h
  refine ⟨start, hprefix.subset (by simp), ?_⟩
  rw [← s.layout_memoOf model earlier start]
  exact hcall.size_le hunknown

theorem mem_positions_of_classAt? {options : Header.Options} {c : ClassDecl}
    (hc : (s.header options).classAt? p = some c) : p ∈ s.positions := by
  rw [header_classAt?] at hc
  obtain ⟨m, hm, -⟩ := Option.map_eq_some_iff.mp hc
  rw [mem_positions_iff, hm]
  rfl

theorem size_of_classAt? {options : Header.Options} {c : ClassDecl}
    (hc : (s.header options).classAt? p = some c) :
    c.size = (s.freshLayout options.model p).size :=
  congrArg Layout.size (layout_of_classAt? hc)

end Schema

/-! ## The order in which classes are laid out -/

mutual

/-- The layouts of a class and of all classes inside it, each before those that it holds. -/
def ClassDecl.layouts : ClassDecl → List Layout
  | ⟨_, _, classes, _, offsets, size, align⟩ => ⟨offsets, size, align⟩ :: layoutsOf classes

def ClassDecl.layoutsOf : List ClassDecl → List Layout
  | [] => []
  | c :: cs => c.layouts ++ layoutsOf cs

end

namespace Header

open ClassDecl

mutual

theorem layouts_classDecl (s : Schema) (model : DataModel) (p : Position) : (m : Message) →
    layouts <$> classDecl s model p m = (m.paths.map (p ++ ·)).mapM (s.layoutAt model)
  | ⟨name, line, fields, messages, enums⟩ => by
      have hclasses := layouts_classDecls s model p 0 messages
      rw [classDecl, Message.paths, List.map_cons, List.append_nil, List.mapM_cons, ← hclasses]
      simp only [map_bind, map_pure, layouts, bind_map_left]

theorem layouts_classDecls (s : Schema) (model : DataModel) (p : Position) (i : ℕ) :
    (ms : List Message) → layoutsOf <$> classDecls s model p i ms =
      ((Message.pathsFrom i ms).map (p ++ ·)).mapM (s.layoutAt model)
  | [] => by
      rw [classDecls, Message.pathsFrom]
      rfl
  | m :: ms => by
      have hfirst := layouts_classDecl s model (p ++ [i]) m
      have hrest := layouts_classDecls s model p (i + 1) ms
      have hpaths : (m.paths.map (i :: ·)).map (p ++ ·) = m.paths.map (p ++ [i] ++ ·) := by
        simp
      rw [classDecls, Message.pathsFrom, List.map_append, List.mapM_append, ← hrest, hpaths,
        ← hfirst]
      simp only [map_bind, map_pure, layoutsOf, bind_map_left]

end

end Header

namespace Schema

/-- Building the classes of a header is laying out the messages in the order of their positions. -/
theorem layouts_classes (s : Schema) (model : DataModel) :
    ClassDecl.layoutsOf <$> Header.classDecls s model [] 0 s.messages =
      s.positions.mapM (s.layoutAt model) := by
  rw [Header.layouts_classDecls, positions]
  simp

/-- The messages are laid out in the order of their positions, and every sum on the way is exact in
words of 64 bits if and only if all classes of the header have sizes that fit a word. -/
theorem layouts_fit_words_iff (s : Schema) (options : Header.Options) :
    ClassDecl.layoutsOf <$> Header.classDecls s options.model [] 0 s.messages =
        s.positions.mapM (s.layoutAt options.model) ∧
      ((∀ members, s.LaidOut options.model members →
          Record.layoutWord? members = some (Record.layout members)) ↔
        ∀ p c, (s.header options).classAt? p = some c → c.size < wordBound) := by
  refine ⟨s.layouts_classes options.model, ?_, ?_⟩
  · intro hfits p c hc
    obtain ⟨members, hmembers, hlayout⟩ :=
      exists_laidOut options.model (mem_positions_of_classAt? hc)
    obtain ⟨-, hsize⟩ := Record.layoutWord?_eq_some_iff.mp (hfits members hmembers)
    rwa [size_of_classAt? hc, hlayout]
  · intro hclasses members hmembers
    obtain ⟨p, hp, hle⟩ := hmembers.exists_size_le
    obtain ⟨c, hc⟩ := exists_classAt? options hp
    rw [← size_of_classAt? hc] at hle
    exact Record.layoutWord?_eq_some_iff.mpr ⟨rfl, Nat.lt_of_le_of_lt hle (hclasses p c hc)⟩

/-- After sixty-four doublings some sum does not fit a word, whatever the data model. -/
theorem layouts_exceed_words_doubling :
    ∃ s, compileSchema ((SourceTree.doubling 64).print SourceTree.spaced) = .ok s ∧
      ∀ options : Header.Options,
        (∃ c, (s.header options).classAt? [64] = some c ∧ c.size = 2 ^ 64) ∧
        ∃ members, s.LaidOut options.model members ∧ Record.layoutWord? members = none := by
  obtain ⟨s, hs, hclass⟩ := exists_class_of_size 64
  refine ⟨s, hs, fun options ↦ ⟨hclass options, ?_⟩⟩
  obtain ⟨c, hc, hsize⟩ := hclass options
  by_contra hnone
  have hfits (members : List Extent) (hmembers : s.LaidOut options.model members) :
      Record.layoutWord? members = some (Record.layout members) := by
    cases hword : Record.layoutWord? members with
    | none => exact absurd ⟨members, hmembers, hword⟩ hnone
    | some found => rw [(Record.layoutWord?_eq_some_iff.mp hword).1]
  have hlt := (layouts_fit_words_iff s options).2.mp hfits [64] c hc
  rw [hsize] at hlt
  exact Nat.lt_irrefl _ hlt

end Schema

end ProtoHeader

import Mathlib.Data.List.Nodup
import Mathlib.Data.List.Perm.Basic
import ProtoHeader.Proofs.HeaderLayout
import ProtoHeader.Proofs.QualifiedNames

/-!
# The order of top-level messages

A message is known by its position, and layouts are remembered in the order in which messages are
declared.  Declaring the messages of the top level in another order moves every position.  Where
these messages have distinct names each reference leads to the same message, at its new position,
and every walk goes through the same messages; so the classes of a header change places with their
messages, and nothing else changes.
-/

namespace ProtoHeader

/-! ## Moved positions -/

/-- The position in another top-level message. -/
def Position.move (index : ℕ → ℕ) : Position → Position
  | [] => []
  | i :: rest => index i :: rest

def Declaration.move (index : ℕ → ℕ) : Declaration → Declaration
  | .message enclosing p => .message (enclosing.map (Position.move index)) (p.move index)
  | .enum => .enum

def Storage.move (index : ℕ → ℕ) : Storage → Storage
  | .fixed extent => .fixed extent
  | .embedded enclosing p => .embedded (enclosing.map (Position.move index)) (p.move index)

namespace Position

variable {index : ℕ → ℕ} {p : Position}

@[simp] theorem length_move (p : Position) : (p.move index).length = p.length := by
  cases p <;> rfl

theorem move_eq_nil_iff : p.move index = [] ↔ p = [] := by
  cases p <;> simp [move]

theorem move_injective (h : Function.Injective index) : Function.Injective (move index) := by
  intro p q hpq
  cases p with
  | nil => exact (move_eq_nil_iff.mp hpq.symm).symm
  | cons i rest =>
      cases q with
      | nil => cases hpq
      | cons j rest' =>
          obtain ⟨hi, rfl⟩ := List.cons.inj hpq
          rw [h hi]

theorem move_append (h : p ≠ []) (q : Position) : (p ++ q).move index = p.move index ++ q := by
  obtain ⟨i, rest, rfl⟩ := List.exists_cons_of_ne_nil h
  rfl

theorem take_move {k : ℕ} (h : 0 < k) (p : Position) :
    (p.move index).take k = move index (p.take k) := by
  obtain ⟨k, rfl⟩ := Nat.exists_eq_add_one_of_ne_zero (Nat.ne_of_gt h)
  cases p <;> rfl

theorem map_move_ancestors (p : Position) :
    p.ancestors.map (move index) = (p.move index).ancestors := by
  rw [ancestors, ancestors, length_move, List.map_map]
  apply List.map_congr_left
  intro k hk
  have hpos : 1 ≤ k := (List.mem_range'_1.mp (List.mem_reverse.mp hk)).1
  rw [Function.comp_apply, take_move hpos]

theorem map_move_scopes (p : Position) : p.scopes.map (move index) = (p.move index).scopes := by
  by_cases h : p = []
  · subst p
    rfl
  · rw [scopes_of_ne_nil h, scopes_of_ne_nil (mt move_eq_nil_iff.mp h), List.map_cons,
      map_move_ancestors]

end Position

/-! ## Schemas with their messages in another order -/

/-- A name that is declared once is found where it is declared. -/
theorem findIdx?_name_of_nodup {ms : List Message} (h : (ms.map (·.name)).Nodup) {k : ℕ}
    {m : Message} (hm : ms[k]? = some m) {name : String} (hname : m.name = name) :
    ms.findIdx? (·.name == name) = some k := by
  have hfirst : (Scope.mk ms []).FirstMessage name k := by
    refine ⟨⟨m, hm, hname⟩, ?_⟩
    intro j hj m' hm' hname'
    have hsame : (ms.map (·.name))[j]? = (ms.map (·.name))[k]? := by
      rw [List.getElem?_map, List.getElem?_map, hm, hm', Option.map_some, Option.map_some, hname,
        hname']
    have hbound : j < (ms.map (·.name)).length := by
      rw [List.length_map]
      exact (List.getElem?_eq_some_iff.mp hm').1
    have heq : j = k := (List.getElem?_inj hbound h).mp hsame
    omega
  exact Scope.findIdx?_eq_some_iff.mpr hfirst

namespace Schema

/-- The two schemas declare the same, except that the message at each index of the second one stands
at another index of the first. -/
structure Reordered (s s' : Schema) (index : ℕ → ℕ) : Prop where
  bijective : Function.Bijective index
  messages : ∀ i, s'.messages[i]? = s.messages[index i]?
  enums : s'.enums = s.enums
  package : s'.package = s.package
  distinct : (s.messages.map (·.name)).Nodup

namespace Reordered

variable {s s' : Schema} {index : ℕ → ℕ}

theorem messageAt?_eq (h : s.Reordered s' index) (p : Position) :
    s'.messageAt? p = s.messageAt? (p.move index) := by
  cases p with
  | nil => rfl
  | cons i rest => rw [messageAt?, h.messages, Position.move, messageAt?]

theorem fieldsAt_eq (h : s.Reordered s' index) (p : Position) :
    s'.fieldsAt p = s.fieldsAt (p.move index) := by
  rw [fieldsAt, fieldsAt, h.messageAt?_eq]

theorem scopeAt?_eq (h : s.Reordered s' index) {p : Position} (hp : p ≠ []) :
    s'.scopeAt? p = s.scopeAt? (p.move index) := by
  obtain ⟨i, rest, rfl⟩ := List.exists_cons_of_ne_nil hp
  rw [scopeAt?, h.messageAt?_eq]
  · rfl
  · exact hp

theorem findIdx?_eq (h : s.Reordered s' index) (name : String) :
    (s'.messages.findIdx? (·.name == name)).map index =
      s.messages.findIdx? (·.name == name) := by
  cases hfound : s'.messages.findIdx? (·.name == name) with
  | none =>
      rw [Option.map_none, Eq.comm, List.findIdx?_eq_none_iff]
      intro m hm
      obtain ⟨j, hj⟩ := List.mem_iff_getElem?.mp hm
      obtain ⟨i, rfl⟩ := h.bijective.2 j
      rw [← h.messages] at hj
      exact List.findIdx?_eq_none_iff.mp hfound m (List.mem_of_getElem? hj)
  | some i =>
      have hfirst : (Scope.mk s'.messages s'.enums).FirstMessage name i :=
        Scope.findIdx?_eq_some_iff.mp hfound
      obtain ⟨⟨m, hm, hname⟩, -⟩ := hfirst
      exact (findIdx?_name_of_nodup h.distinct ((h.messages i).symm.trans hm) hname).symm

theorem declared?_eq (h : s.Reordered s' index) (scopes : List Position) (name : String) :
    (s'.declared? scopes name).map (Declaration.move index) =
      s.declared? (scopes.map (Position.move index)) name := by
  have hplace : (scopes.map (Position.move index)).head?.getD [] =
      Position.move index (scopes.head?.getD []) := by
    cases scopes <;> rfl
  simp only [declared?, hplace]
  generalize scopes.head?.getD [] = place
  by_cases hnil : place = []
  · -- at the top level messages have changed places
    subst hnil
    simp only [scopeAt?, Position.move, ← h.findIdx?_eq, h.enums]
    cases s'.messages.findIdx? (·.name == name) with
    | some i => rfl
    | none => exact apply_ite (Option.map (Declaration.move index)) _ _ _
  · rw [h.scopeAt?_eq hnil]
    cases s.scopeAt? (place.move index) with
    | none => rfl
    | some scope =>
        dsimp only
        cases scope.messages.findIdx? (·.name == name) with
        | some i => simp only [Option.map_some, Declaration.move, Position.move_append hnil]
        | none => exact apply_ite (Option.map (Declaration.move index)) _ _ _

theorem visible?_eq (h : s.Reordered s' index) (name : String) (scopes : List Position) :
    (s'.visible? name scopes).map (Declaration.move index) =
      s.visible? name (scopes.map (Position.move index)) := by
  induction scopes with
  | nil => exact h.declared?_eq [] name
  | cons scope outer ih =>
      simp only [visible?, Option.orElse_eq_orElse, Option.orElse_eq_or, Option.map_or, ih,
        h.declared?_eq, List.map_cons]

theorem member?_eq (h : s.Reordered s' index) (d : Declaration) (name : String) :
    (s'.member? d name).map (Declaration.move index) = s.member? (d.move index) name := by
  cases d with
  | message enclosing p => exact h.declared?_eq (p :: enclosing) name
  | enum => rfl

theorem foldlM_member?_eq (h : s.Reordered s' index) (names : List String) (d : Declaration) :
    (names.foldlM s'.member? d).map (Declaration.move index) =
      names.foldlM s.member? (d.move index) := by
  induction names generalizing d with
  | nil => rfl
  | cons name names ih =>
      rw [List.foldlM_cons, List.foldlM_cons, ← h.member?_eq]
      cases s'.member? d name with
      | none => rfl
      | some d' => exact ih d'

theorem lookup?_eq (h : s.Reordered s' index) (scopes : List Position) (names : List String) :
    (s'.lookup? scopes names).map (Declaration.move index) =
      s.lookup? (scopes.map (Position.move index)) names := by
  cases names with
  | nil => rfl
  | cons first rest =>
      rw [lookup?, lookup?, ← h.visible?_eq]
      cases s'.visible? first scopes with
      | none => rfl
      | some d => exact h.foldlM_member?_eq rest d

theorem resolve?_eq (h : s.Reordered s' index) (scopes : List Position) (typeName : String) :
    (s'.resolve? scopes typeName).map (Declaration.move index) =
      s.resolve? (scopes.map (Position.move index)) typeName := by
  simp only [resolve?, h.package, Option.orElse_eq_orElse, Option.orElse_eq_or, Option.map_or,
    h.lookup?_eq, apply_ite (Option.map (Declaration.move index)), Option.map_none, List.map_nil,
    apply_ite (List.map (Position.move index))]

theorem storage_eq (h : s.Reordered s' index) (model : DataModel) (scopes : List Position)
    (f : Field) :
    (s'.storage model scopes f).move index =
      s.storage model (scopes.map (Position.move index)) f := by
  unfold storage
  rw [← h.resolve?_eq]
  split
  · rfl
  · split
    · rfl
    · match s'.resolve? scopes f.typeName with
      | none => rfl
      | some .enum => rfl
      | some (.message enclosing q) => rfl

/-! ## Walks and headers -/

variable {model : DataModel}

/-- A member is sized as at its old place if the messages below it are. -/
theorem plainMember_eq (h : s.Reordered s' index) {visiting : List Position} {p : Position}
    {f : Field} (hf : f ∈ s'.fieldsAt p)
    (hinner : ∀ q, s'.Contains p q → q ∉ visiting →
      s'.plainLayout model visiting q.ancestors q =
        s.plainLayout model (visiting.map (Position.move index)) (q.move index).ancestors
          (q.move index)) :
    s'.plainMember model visiting p.scopes f =
      s.plainMember model (visiting.map (Position.move index)) (p.move index).scopes f := by
  have hstorage := h.storage_eq model p.scopes f
  rw [Position.map_move_scopes] at hstorage
  cases hs : s'.storage model p.scopes f with
  | fixed extent =>
      rw [hs, Storage.move] at hstorage
      rw [plainMember_fixed hs, plainMember_fixed hstorage.symm]
  | embedded enclosing q =>
      obtain rfl := anchored_of_storage hs
      rw [hs, Storage.move, Position.map_move_ancestors] at hstorage
      have hvisited : q.move index ∈ visiting.map (Position.move index) ↔ q ∈ visiting :=
        List.mem_map_of_injective (Position.move_injective h.bijective.1)
      by_cases hq : q ∈ visiting
      · rw [plainMember_visited hs hq, plainMember_visited hstorage.symm (hvisited.mpr hq)]
      · rw [plainMember_fresh hs hq, plainMember_fresh hstorage.symm (mt hvisited.mp hq),
          hinner q (contains_of_storage hf hs) hq]

/-- A walk goes through the same messages, wherever they stand. -/
theorem plainLayout_eq (h : s.Reordered s' index) (visiting : List Position) (p : Position) :
    s'.plainLayout model visiting p.ancestors p =
      s.plainLayout model (visiting.map (Position.move index)) (p.move index).ancestors
        (p.move index) := by
  induction visiting, p using walk_induction s' with
  | step visiting p ih =>
      have hmembers : (s'.fieldsAt p).map (s'.plainMember model (p :: visiting) p.scopes) =
          (s.fieldsAt (p.move index)).map (s.plainMember model
            ((p :: visiting).map (Position.move index)) (p.move index).scopes) := by
        rw [← h.fieldsAt_eq]
        apply List.map_congr_left
        intro f hf
        exact h.plainMember_eq hf ih
      rw [plainLayout_ancestors, plainLayout_ancestors, hmembers, List.map_cons]

theorem freshLayout_eq (h : s.Reordered s' index) (p : Position) :
    s'.freshLayout model p = s.freshLayout model (p.move index) := by
  rw [freshLayout, freshLayout, h.plainLayout_eq, List.map_nil]

end Reordered

end Schema

namespace Header

variable {layoutOf layoutOf' : Position → Layout}

theorem length_classTrees (layoutOf : Position → Layout) (p : Position) (i : ℕ)
    (ms : List Message) : (classTrees layoutOf p i ms).length = ms.length := by
  induction ms generalizing i with
  | nil => rw [classTrees, List.length_nil, List.length_nil]
  | cons m ms ih => rw [classTrees, List.length_cons, List.length_cons, ih]

mutual

theorem classTree_congr {p q : Position} (h : ∀ r, layoutOf (p ++ r) = layoutOf' (q ++ r)) :
    (m : Message) → classTree layoutOf p m = classTree layoutOf' q m
  | ⟨name, line, fields, messages, enums⟩ => by
      have hown := h []
      rw [List.append_nil, List.append_nil] at hown
      rw [classTree, classTree, hown, classTrees_congr h 0 messages]

theorem classTrees_congr {p q : Position} (h : ∀ r, layoutOf (p ++ r) = layoutOf' (q ++ r))
    (i : ℕ) : (ms : List Message) → classTrees layoutOf p i ms = classTrees layoutOf' q i ms
  | [] => by rw [classTrees, classTrees]
  | m :: ms => by
      have hinner : ∀ r, layoutOf (p ++ [i] ++ r) = layoutOf' (q ++ [i] ++ r) := by
        intro r
        rw [List.append_assoc, List.append_assoc, h]
      rw [classTrees, classTrees, classTree_congr hinner m, classTrees_congr h (i + 1) ms]

end

end Header

namespace Schema

theorem Reordered.getElem?_classes {s s' : Schema} {index : ℕ → ℕ} (h : s.Reordered s' index)
    (options : Header.Options) (i : ℕ) :
    (s'.header options).classes[i]? = (s.header options).classes[index i]? := by
  rw [header_classes, header_classes, Header.getElem?_classTrees, Header.getElem?_classTrees,
    h.messages]
  apply congrArg fun f ↦ Option.map f s.messages[index i]?
  funext m
  apply Header.classTree_congr
  intro r
  rw [h.freshLayout_eq, Nat.zero_add, Nat.zero_add]
  rfl

end Schema

/-! ## Orders of a list -/

/-- The elements at the given indices. -/
def rearrange {α : Type} (order : List ℕ) (xs : List α) : List α :=
  order.filterMap (xs[·]?)

/-- Where the element at an index stood before.  Indices beyond the order stay. -/
def indexBefore (order : List ℕ) (i : ℕ) : ℕ :=
  order[i]?.getD i

section Orders

variable {order : List ℕ} {n : ℕ}

theorem length_of_perm_range (h : order.Perm (List.range n)) : order.length = n := by
  rw [h.length_eq, List.length_range]

theorem getElem?_eq_none_of_le (h : order.Perm (List.range n)) {i : ℕ} (hi : n ≤ i) :
    order[i]? = none := by
  apply List.getElem?_eq_none
  rwa [length_of_perm_range h]

theorem indexBefore_of_le (h : order.Perm (List.range n)) {i : ℕ} (hi : n ≤ i) :
    indexBefore order i = i := by
  rw [indexBefore, getElem?_eq_none_of_le h hi, Option.getD_none]

theorem getElem?_eq_indexBefore (h : order.Perm (List.range n)) {i : ℕ} (hi : i < n) :
    order[i]? = some (indexBefore order i) := by
  have hlength : i < order.length := by
    rwa [length_of_perm_range h]
  rw [indexBefore, List.getElem?_eq_getElem hlength, Option.getD_some]

theorem indexBefore_lt_iff (h : order.Perm (List.range n)) {i : ℕ} :
    indexBefore order i < n ↔ i < n := by
  by_cases hi : i < n
  · have hmem := List.mem_of_getElem? (getElem?_eq_indexBefore h hi)
    rw [h.mem_iff, List.mem_range] at hmem
    exact iff_of_true hmem hi
  · rw [indexBefore_of_le h (Nat.le_of_not_lt hi)]

theorem indexBefore_bijective (h : order.Perm (List.range n)) :
    Function.Bijective (indexBefore order) := by
  constructor
  · intro i j hij
    have hsame : i < n ↔ j < n := by
      rw [← indexBefore_lt_iff h, hij, indexBefore_lt_iff h]
    by_cases hi : i < n
    · have hnodup : order.Nodup := h.nodup_iff.mpr List.nodup_range
      have hlength : i < order.length := by
        rwa [length_of_perm_range h]
      apply (List.getElem?_inj hlength hnodup).mp
      rw [getElem?_eq_indexBefore h hi, getElem?_eq_indexBefore h (hsame.mp hi), hij]
    · have hj := mt hsame.mpr hi
      rwa [indexBefore_of_le h (Nat.le_of_not_lt hi), indexBefore_of_le h (Nat.le_of_not_lt hj)]
        at hij
  · intro k
    by_cases hk : k < n
    · obtain ⟨i, hi⟩ := List.mem_iff_getElem?.mp (h.mem_iff.mpr (List.mem_range.mpr hk))
      exact ⟨i, by rw [indexBefore, hi, Option.getD_some]⟩
    · exact ⟨k, indexBefore_of_le h (Nat.le_of_not_lt hk)⟩

theorem getElem?_filterMap_of_isSome {α β : Type} {f : α → Option β} {xs : List α}
    (h : ∀ x ∈ xs, (f x).isSome = true) (i : ℕ) : (xs.filterMap f)[i]? = xs[i]?.bind f := by
  induction xs generalizing i with
  | nil => simp
  | cons x xs ih =>
      obtain ⟨hx, hxs⟩ := List.forall_mem_cons.mp h
      obtain ⟨y, hy⟩ := Option.isSome_iff_exists.mp hx
      rw [List.filterMap_cons_some hy]
      cases i with
      | zero => simp [hy]
      | succ i => simpa using ih hxs i

theorem getElem?_rearrange {α : Type} {xs : List α} (h : order.Perm (List.range xs.length))
    (i : ℕ) : (rearrange order xs)[i]? = xs[indexBefore order i]? := by
  have hsome : ∀ k ∈ order, (xs[k]?).isSome = true := by
    intro k hk
    have hbound : k < xs.length := List.mem_range.mp (h.mem_iff.mp hk)
    rw [List.getElem?_eq_getElem hbound]
    rfl
  rw [rearrange, getElem?_filterMap_of_isSome hsome]
  by_cases hi : i < xs.length
  · rw [getElem?_eq_indexBefore h hi, Option.bind_some]
  · have hle : xs.length ≤ i := Nat.le_of_not_lt hi
    rw [indexBefore_of_le h hle, getElem?_eq_none_of_le h hle, List.getElem?_eq_none hle,
      Option.bind_none]

end Orders

/-- The messages of the top level may be declared in any order: the classes of the header come in
the order of their messages, and are otherwise the same. -/
theorem Schema.header_rearrange (s : Schema) (hnames : (s.messages.map (·.name)).Nodup)
    {order : List ℕ} (horder : order.Perm (List.range s.messages.length))
    (options : Header.Options) :
    { s with messages := rearrange order s.messages }.header options =
      { s.header options with classes := rearrange order (s.header options).classes } := by
  have hreordered : s.Reordered { s with messages := rearrange order s.messages }
      (indexBefore order) :=
    ⟨indexBefore_bijective horder, getElem?_rearrange horder, rfl, rfl, hnames⟩
  have hlength : (s.header options).classes.length = s.messages.length := by
    rw [Schema.header_classes, Header.length_classTrees]
  have hclasses : ({ s with messages := rearrange order s.messages }.header options).classes =
      rearrange order (s.header options).classes := by
    apply List.ext_getElem?
    intro i
    rw [hreordered.getElem?_classes, getElem?_rearrange (by rwa [hlength])]
  rw [← hclasses]
  rfl

/-- Two messages that hold each other, declared the other way round. -/
theorem Schema.header_rearrange_cycle :
    let s : Schema := ⟨"proto3", "", [],
      [⟨"A", 1, [.declare "B" "b" 1 false 2], [], []⟩,
        ⟨"B", 4, [.declare "A" "a" 1 false 5], [], []⟩], []⟩
    let options : Header.Options := ⟨none, .lp64⟩
    { s with messages := s.messages.reverse }.header options =
      { s.header options with classes := rearrange [1, 0] (s.header options).classes } := by
  intro s options
  have hnames : (s.messages.map (·.name)).Nodup := by decide
  have horder : [1, 0].Perm (List.range s.messages.length) := by decide
  exact s.header_rearrange hnames horder options

end ProtoHeader

import Mathlib.Algebra.Group.Nat.Defs
import ProtoHeader.Proofs.EscapedNames
import ProtoHeader.Proofs.FlatLeaves
import ProtoHeader.Proofs.QualifiedNames
import ProtoHeader.Proofs.TargetTypes
import ProtoHeader.Proofs.TreeRecovery

/-!
# Messages that double in size

Each message of a chain holds the one before it twice, so that the sizes are the powers of two and
a short text declares messages of any size.
-/

namespace ProtoHeader

open Text Grammar

/-! ## Sizes along the chain -/

theorem roundUp_one (n : ℕ) : roundUp n 1 = n := by
  simp [roundUp, Nat.mod_one]

theorem Record.layout_pair (size : ℕ) :
    layout [⟨size, 1⟩, ⟨size, 1⟩] = ⟨[0, size], 2 * size, 1⟩ := by
  simp [layout, offsets, offsetsFrom, endOf, alignment, Extent.alignment, roundUp_one, Nat.two_mul]

namespace Schema

variable {s : Schema} {model : DataModel} {n : ℕ}

/-- The message at index zero is empty, and each of the next ones holds the one before it twice. -/
structure Doubles (s : Schema) (model : DataModel) (n : ℕ) : Prop where
  first : s.fieldsAt [0] = []
  next : ∀ i < n, (s.fieldsAt [i + 1]).map (s.storage model (Position.scopes [i + 1])) =
    [.embedded [] [i], .embedded [] [i]]

theorem Doubles.settled (h : s.Doubles model n) {i : ℕ} (hi : i ≤ n) : s.Settled [i] := by
  induction i with
  | zero =>
      refine settled_of_members model fun f hf ↦ ?_
      simp [h.first] at hf
  | succ i ih =>
      refine settled_of_members model fun f hf enclosing q hs ↦ ?_
      have hmem := List.mem_map_of_mem (f := s.storage model (Position.scopes [i + 1])) hf
      rw [h.next i hi, hs] at hmem
      obtain ⟨-, rfl⟩ : enclosing = [] ∧ q = [i] := by simpa using hmem
      exact ih (Nat.le_of_succ_le hi)

theorem Doubles.extent_freshLayout (h : s.Doubles model n) {i : ℕ} (hi : i ≤ n) :
    (s.freshLayout model [i]).extent = ⟨2 ^ i, 1⟩ := by
  induction i with
  | zero =>
      rw [freshLayout_of_settled s model (h.settled hi), h.first]
      rfl
  | succ i ih =>
      have hbefore := ih (Nat.le_of_succ_le hi)
      rw [freshLayout_of_settled s model (h.settled hi), memberExtents_eq, h.next i hi]
      simp only [List.map_cons, List.map_nil, Storage.extent, hbefore, Record.layout_pair]
      rw [Layout.extent, Nat.pow_succ']

/-! ## References by a plain name -/

/-- A name without dots means what it names in the innermost scope that declares it. -/
theorem resolve?_of_dot_notMem {name : String} (h : '.' ∉ name.toList) (scopes : List Position) :
    s.resolve? scopes name = s.visible? name scopes := by
  have hsegments : segments name = [name] := by
    simpa using segments_intercalate (List.cons_ne_nil name []) (by simpa using h)
  have hnames : segments (dropLeadingDots name) = [name] := by
    rw [segments_dropLeadingDots, hsegments]
    rfl
  have hrelative : name.toList.head? ≠ some '.' := by
    simp [head?_eq_dot_iff, hsegments]
  have hpackage : ¬(segments s.package).length < 1 := by
    simpa using segments_ne_nil s.package
  simp [resolve?, hnames, hrelative, hpackage, lookup?]

end Schema

/-! ## A text for each length of the chain -/

namespace SourceTree

def numberedName (i : ℕ) : Ident where
  start := 'M'
  rest := Nat.toDigits 10 i
  start_ok := by decide
  rest_ok _ := word_of_mem_toDigits

def letterName (c : Char) (hc : isNameStart c = true) : Ident where
  start := c
  rest := []
  start_ok := hc
  rest_ok := by simp

/-- A field for the message with the given number. -/
def holding (i : ℕ) (name : Ident) (tag : ℕ) (hpos : 0 < tag) (hlt : tag < 0x100000000) :
    BodyField where
  label := none
  type := ⟨false, ⟨numberedName i, []⟩⟩
  name := name
  tag := tag
  tag_pos := hpos
  tag_lt := hlt
  no_keyword := by
    intro _ kind heq
    have hhead : kind.keyword.toList.head? = some 'M' := by
      rw [← heq]
      rfl
    cases kind <;> exact absurd hhead (by decide)

def doubledItems : ℕ → List Item
  | 0 => []
  | i + 1 =>
    [.field (holding i (letterName 'a' (by decide)) 1 (by decide) (by decide)),
      .field (holding i (letterName 'b' (by decide)) 2 (by decide) (by decide))]

def doubledDecl (i : ℕ) : Decl :=
  .message (numberedName i) (doubledItems i)

/-- Messages numbered up to `n`, each of which holds the one before it twice. -/
def doubling (n : ℕ) : File where
  package := ⟨letterName 'p' (by decide), []⟩
  decls := (List.range (n + 1)).map doubledDecl

theorem numberedName_injective {i j : ℕ}
    (h : (numberedName i).string = (numberedName j).string) : i = j := by
  have hdigits : Nat.toDigits 10 i = Nat.toDigits 10 j := by
    simpa [Ident.string, Ident.chars, numberedName] using congrArg String.toList h
  have hnumber := natural?_toDigits i
  rw [hdigits, natural?_toDigits j] at hnumber
  exact (Option.some.inj hnumber).symm

variable {line : ℕ → ℕ}

/-- The message with the given number, whose heading is the statement with index `k`. -/
def doubledMessage (line : ℕ → ℕ) (k i : ℕ) : Message :=
  ⟨(numberedName i).string, line k, fieldsOf line (k + 1) (doubledItems i), [], []⟩

theorem messages_doubledDecl (k i : ℕ) :
    (doubledDecl i).item.messages line k = [doubledMessage line k i] := by
  cases i <;> rfl

theorem getElem?_messagesOf_doubled (numbers : List ℕ) (k : ℕ) {j i : ℕ}
    (h : numbers[j]? = some i) :
    ∃ k', (messagesOf line k ((numbers.map doubledDecl).map Decl.item))[j]? =
      some (doubledMessage line k' i) := by
  induction numbers generalizing k j with
  | nil => simp at h
  | cons first numbers ih =>
      rw [List.map_cons, List.map_cons, messagesOf, messages_doubledDecl]
      cases j with
      | zero =>
          obtain rfl : first = i := by simpa using h
          exact ⟨k, rfl⟩
      | succ j => exact ih _ (by simpa using h)

theorem exists_getElem?_doubling (line : ℕ → ℕ) {n i : ℕ} (hi : i ≤ n) :
    ∃ k, ((doubling n).schema line).messages[i]? = some (doubledMessage line k i) :=
  getElem?_messagesOf_doubled (List.range (n + 1)) 2
    (List.getElem?_range (Nat.lt_succ_of_le hi))

theorem firstMessage_doubling (line : ℕ → ℕ) {n i : ℕ} (hi : i ≤ n) :
    Scope.FirstMessage ⟨((doubling n).schema line).messages, ((doubling n).schema line).enums⟩
      (numberedName i).string i := by
  obtain ⟨k, hmessage⟩ := exists_getElem?_doubling line hi
  refine ⟨⟨_, hmessage, rfl⟩, fun j hj m hm hname ↦ ?_⟩
  obtain ⟨k', hearlier⟩ := exists_getElem?_doubling line (Nat.le_trans (Nat.le_of_lt hj) hi)
  obtain rfl := Option.some.inj (hearlier.symm.trans hm)
  exact Nat.ne_of_lt hj (numberedName_injective hname)

theorem typeChars_holding (i : ℕ) (name : Ident) (tag : ℕ) (hpos : 0 < tag)
    (hlt : tag < 0x100000000) :
    (holding i name tag hpos hlt).type.chars = (numberedName i).chars := by
  simp [holding, Reference.chars, Dotted.chars, List.intercalate]

theorem ofName?_numberedName (i : ℕ) : Scalar.ofName? (numberedName i).string = none := by
  apply Option.eq_none_iff_forall_not_mem.mpr
  intro t ht
  have hname := Scalar.ofName?_eq_some_iff.mp ht
  have hhead : t.name.toList.head? = some 'M' := by
    rw [hname, Ident.string, String.toList_ofList]
    rfl
  cases t <;> exact absurd hhead (by decide)

/-- A field for a message of the chain holds it by value. -/
theorem storage_holding (line : ℕ → ℕ) (model : DataModel) {n i : ℕ} (hi : i < n) (name : Ident)
    (tag : ℕ) (hpos : 0 < tag) (hlt : tag < 0x100000000) (l : ℕ) :
    ((doubling n).schema line).storage model (Position.scopes [i + 1])
      ((holding i name tag hpos hlt).field l) = .embedded [] [i] := by
  have hfield : (holding i name tag hpos hlt).field l =
      .declare (numberedName i).string name.string tag false l := by
    rw [FieldItem.field, typeChars_holding]
    rfl
  have hdot : '.' ∉ (numberedName i).string.toList := by
    rw [Ident.string, String.toList_ofList]
    exact (numberedName i).dot_notMem
  -- the message around the field declares nothing, so that the name is found at the top level
  obtain ⟨k, hmessage⟩ := exists_getElem?_doubling line (Nat.succ_le_of_lt hi)
  have hinside : ((doubling n).schema line).declared? [[i + 1]] (numberedName i).string = none := by
    simp [Schema.declared?, Schema.scopeAt?, Schema.messageAt?, hmessage, Message.descend?,
      doubledMessage]
  have houtside := Scope.findIdx?_eq_some_iff.mpr (firstMessage_doubling line (Nat.le_of_lt hi))
  have hvisible : ((doubling n).schema line).visible? (numberedName i).string [[i + 1]] =
      some (.message [] [i]) := by
    simp only [Schema.visible?, hinside]
    simp [Schema.declared?, Schema.scopeAt?, houtside]
  have hscopes : Position.scopes [i + 1] = [[i + 1]] := rfl
  simp [hfield, hscopes, Schema.storage, Field.declare, Field.scalar?, ofName?_numberedName,
    Schema.resolve?_of_dot_notMem hdot, hvisible]

theorem fieldsAt_doubling (line : ℕ → ℕ) {n i : ℕ} (hi : i ≤ n) :
    ∃ k, ((doubling n).schema line).fieldsAt [i] = fieldsOf line k (doubledItems i) := by
  obtain ⟨k, hmessage⟩ := exists_getElem?_doubling line hi
  refine ⟨k + 1, ?_⟩
  simp [Schema.fieldsAt, Schema.messageAt?, hmessage, Message.descend?, doubledMessage]

theorem doubles_doubling (line : ℕ → ℕ) (model : DataModel) (n : ℕ) :
    ((doubling n).schema line).Doubles model n := by
  constructor
  · obtain ⟨k, hfields⟩ := fieldsAt_doubling line (Nat.zero_le n)
    rw [hfields]
    rfl
  · intro i hi
    obtain ⟨k, hfields⟩ := fieldsAt_doubling line (Nat.succ_le_of_lt hi)
    rw [hfields]
    simp only [doubledItems, fieldsOf, Item.fields, List.map_cons, List.map_nil,
      storage_holding line model hi, List.singleton_append, List.append_nil]

/-! ## Accepted texts -/

/-- A text that is written from a source tree compiles, to the schema that the tree declares. -/
theorem File.compileSchema_print (f : File) (gap : ℕ → Gap) :
    compileSchema (f.print gap) = .ok (f.schema (lineOf gap)).annotate := by
  have hsteps : Progress.start.steps ((numbered (lineOf gap) 0 f.statements).drop (max 0 1 + 1)) =
      .ok ⟨messagesOf (lineOf gap) 2 (f.decls.map Decl.item),
        enumsOf (lineOf gap) 2 (f.decls.map Decl.item), [], none⟩ := steps_decls 2 [] [] f.decls
  rw [compileSchema, Schema.ofText, File.print, normalize_layOut gap f.isStatement, Schema.parse,
    f.findVersion, f.findPackage, f.importsOf]
  simp only [bind, Except.bind, hsteps]
  rfl

/-- One space in front of every statement. -/
def spaced (_ : ℕ) : Gap where
  chars := [' ']
  blank := by simp [isBlank_space]

end SourceTree

open SourceTree

/-- For every number a text compiles to a schema that has a class with just that power of two as its
size, for all data models. -/
theorem exists_class_of_size (n : ℕ) :
    ∃ s, compileSchema ((doubling n).print spaced) = .ok s ∧
      ∀ options, ∃ c, (s.header options).classAt? [n] = some c ∧ c.size = 2 ^ n := by
  refine ⟨_, (doubling n).compileSchema_print spaced, fun options ↦ ?_⟩
  have hposition : [n] ∈ ((doubling n).schema (lineOf spaced)).annotate.positions := by
    obtain ⟨k, hmessage⟩ := exists_getElem?_doubling (lineOf spaced) (Nat.le_refl n)
    rw [Schema.mem_positions_iff, Schema.annotate_eq_revise, Schema.messageAt?_revise]
    simp [Schema.messageAt?, hmessage, Message.descend?]
  obtain ⟨c, hc⟩ := Schema.exists_classAt? options hposition
  have hdoubles := doubles_doubling (lineOf spaced) options.model n
  refine ⟨c, hc, ?_⟩
  calc
    c.size = c.layout.extent.size := rfl
    _ = (((doubling n).schema (lineOf spaced)).freshLayout options.model [n]).extent.size := by
        rw [Schema.layout_of_classAt? hc, Schema.annotate_eq_revise,
          Schema.freshLayout_quiet Schema.quiet_annotate]
    _ = 2 ^ n := by rw [hdoubles.extent_freshLayout (Nat.le_refl n)]

end ProtoHeader

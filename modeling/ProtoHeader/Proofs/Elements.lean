import Mathlib.Data.List.Basic
import Mathlib.Order.Lattice
import ProtoHeader.Schema.Parse
import ProtoHeader.Schema.Position

/-!
# Elements of a schema

Everything that a schema declares is an element: messages, fields, enumerations and enumerators.
An element stands at an address, which says for each level in which list of siblings and at which
index to go on.  It spans the lines from its own to the last one of what it holds.

Main statement: `Placed.apart`.  If siblings are declared one after another and after what holds
them, then the spans of two elements are disjoint unless one of the elements holds the other.
-/

namespace ProtoHeader

open Source

/-- Anything that is declared, and the top level, which holds it all. -/
inductive Element where
  | top (scope : Scope)
  | message (m : Message)
  | field (f : Field)
  | enum (e : EnumDecl)
  | enumerator (v : Enumerator)

/-- The kind of elements in a list of siblings. -/
inductive Kind where
  | message
  | field
  | enum
  | enumerator
  deriving DecidableEq

theorem Kind.forall_iff {P : Kind → Prop} :
    (∀ kind, P kind) ↔ P .message ∧ P .field ∧ P .enum ∧ P .enumerator :=
  ⟨fun h ↦ ⟨h _, h _, h _, h _⟩, fun h kind ↦ by cases kind <;> simp [h]⟩

/-- A place in one of the lists that an element holds. -/
structure Slot where
  kind : Kind
  index : ℕ
  deriving DecidableEq

/-- The slots that lead from an element down to another one. -/
abbrev Address := List Slot

namespace Element

/-- The elements of one kind that an element holds, in the order of their declaration. -/
def members : Element → Kind → List Element
  | top scope, .message => scope.messages.map message
  | top scope, .enum => scope.enums.map enum
  | message m, .message => m.messages.map message
  | message m, .field => m.fields.map field
  | message m, .enum => m.enums.map enum
  | enum e, .enumerator => e.values.map enumerator
  | _, _ => []

def child? (e : Element) (a : Slot) : Option Element :=
  (e.members a.kind)[a.index]?

def at? (e : Element) : Address → Option Element
  | [] => some e
  | a :: rest => (e.child? a).bind (·.at? rest)

/-- The line that the element is declared on; the top level is declared on none. -/
def line : Element → ℕ
  | top _ => 0
  | message m => m.line
  | field f => f.line
  | enum e => e.line
  | enumerator v => v.line

/-- The element without what it holds. -/
def bare : Element → Element
  | top _ => top ⟨[], []⟩
  | message m => message ⟨m.name, m.line, [], [], []⟩
  | field f => field f
  | enum e => enum ⟨e.name, e.line, []⟩
  | enumerator v => enumerator v

theorem line_bare (e : Element) : e.bare.line = e.line := by
  cases e <;> rfl

theorem members_of_bare {e : Element} (h : e.bare = e) (kind : Kind) : e.members kind = [] := by
  rw [← h]
  cases e <;> cases kind <;> rfl

end Element

/-! ## Lines that declare elements -/

/-- Name, type, tag and label of the field are those that the line gives. -/
structure Field.CapturedFrom (f : Field) (l : Line) : Prop where
  line_eq : f.line = l.number
  tag_pos : 0 < f.tag
  tag_lt : f.tag < 0x100000000
  parts : ∃ parts, Grammar.fieldParts? l.text.toList = some parts ∧
    f.typeName = String.ofList parts.typeName ∧ f.name = String.ofList parts.name ∧
    Grammar.tag? parts.digits = some f.tag ∧ f.isRepeated = (parts.label == some .repeated)

/-- Name and value of the enumerator are those that the line gives. -/
structure Enumerator.CapturedFrom (v : Enumerator) (l : Line) : Prop where
  line_eq : v.line = l.number
  le_value : -0x80000000 ≤ v.value
  value_lt : v.value < 0x80000000
  parts : ∃ parts, Grammar.enumeratorParts? l.text.toList = some parts ∧
    v.name = String.ofList parts.name ∧ Grammar.enumNumber? parts.value = some v.value

/-- The element is declared on the line, and is called there what it is called. -/
def Element.CapturedFrom : Element → Line → Prop
  | top _, _ => False
  | message m, l =>
    m.line = l.number ∧ Grammar.declaredName? DeclKind.message.keyword l.text.toList = some m.name
  | field f, l => f.CapturedFrom l
  | enum e, l =>
    e.line = l.number ∧ Grammar.declaredName? DeclKind.enum.keyword l.text.toList = some e.name
  | enumerator v, l => v.CapturedFrom l

theorem Element.line_of_capturedFrom {e : Element} {l : Line} (h : e.CapturedFrom l) :
    e.line = l.number := by
  cases e with
  | top scope => exact h.elim
  | message m => exact h.1
  | field f => exact h.line_eq
  | enum e => exact h.1
  | enumerator v => exact h.line_eq

/-! ## The last line -/

def EnumDecl.lastLine (e : EnumDecl) : ℕ :=
  (e.values.map (·.line)).foldr max e.line

namespace Message

mutual

/-- The last of the lines on which the message, and all that it holds, is declared. -/
def lastLine : Message → ℕ
  | ⟨_, line, fields, messages, enums⟩ =>
    max ((fields.map (·.line)).foldr max line)
      (max (lastLines messages) ((enums.map EnumDecl.lastLine).foldr max 0))

def lastLines : List Message → ℕ
  | [] => 0
  | m :: ms => max m.lastLine (lastLines ms)

end

theorem lastLines_eq_foldr (ms : List Message) :
    lastLines ms = (ms.map lastLine).foldr max 0 := by
  induction ms with
  | nil => rfl
  | cons m ms ih => rw [lastLines, ih, List.map_cons, List.foldr_cons]

end Message

theorem foldr_max_le_iff {xs : List ℕ} {b n : ℕ} :
    xs.foldr max b ≤ n ↔ b ≤ n ∧ ∀ x ∈ xs, x ≤ n := by
  induction xs with
  | nil => simp
  | cons x xs ih => rw [List.foldr_cons, Nat.max_le, ih, List.forall_mem_cons, and_left_comm]

namespace Element

/-- The last line on which the element, or something in it, is declared. -/
def last : Element → ℕ
  | top scope =>
    max (Message.lastLines scope.messages) ((scope.enums.map EnumDecl.lastLine).foldr max 0)
  | message m => m.lastLine
  | field f => f.line
  | enum e => e.lastLine
  | enumerator v => v.line

theorem last_le_iff {e : Element} {n : ℕ} :
    e.last ≤ n ↔ e.line ≤ n ∧ ∀ kind, ∀ x ∈ e.members kind, x.last ≤ n := by
  cases e with
  | top scope =>
      simp [last, line, members, Kind.forall_iff, foldr_max_le_iff, Message.lastLines_eq_foldr]
  | message m =>
      cases m
      simp [last, line, members, Kind.forall_iff, foldr_max_le_iff,
        Message.lastLines_eq_foldr, Message.lastLine, and_assoc, and_left_comm]
  | field f => simp [last, line, members]
  | enum e => simp [last, line, members, Kind.forall_iff, foldr_max_le_iff, EnumDecl.lastLine]
  | enumerator v => simp [last, line, members]

variable {e x y : Element} {a b : Address} {n : ℕ}

theorem line_le_last (e : Element) : e.line ≤ e.last :=
  (last_le_iff.mp (Nat.le_refl e.last)).1

theorem last_le_of_mem {kind : Kind} (hx : x ∈ e.members kind) : x.last ≤ e.last :=
  (last_le_iff.mp (Nat.le_refl e.last)).2 kind x hx

theorem at?_append (e : Element) (a b : Address) :
    e.at? (a ++ b) = (e.at? a).bind (·.at? b) := by
  induction a generalizing e with
  | nil => rfl
  | cons c rest ih =>
      rw [List.cons_append, at?, at?]
      cases e.child? c with
      | none => rfl
      | some child => exact ih child

theorem last_le_of_at? (hx : e.at? a = some x) : x.last ≤ e.last := by
  induction a generalizing e with
  | nil => exact Nat.le_of_eq (congrArg last (Option.some.inj hx)).symm
  | cons c rest ih =>
      obtain ⟨child, hchild, hx⟩ := Option.bind_eq_some_iff.mp hx
      exact Nat.le_trans (ih hx) (last_le_of_mem (List.mem_of_getElem? hchild))

/-! ## Elements placed one after another -/

/-- What the element holds is declared after it, siblings one after another, and nothing in the
middle of something else. -/
inductive Placed : Element → Prop
  | intro {e : Element}
      (later : ∀ kind, ∀ x ∈ e.members kind, e.line < x.line)
      (inner : ∀ kind, ∀ x ∈ e.members kind, x.Placed)
      (ordered : ∀ kind, (e.members kind).Pairwise fun x y ↦ x.last < y.line)
      (apart : ∀ kind kind', kind ≠ kind' → ∀ x ∈ e.members kind, ∀ y ∈ e.members kind',
        x.last < y.line ∨ y.last < x.line) :
      e.Placed

namespace Placed

theorem later (h : e.Placed) {kind : Kind} (hx : x ∈ e.members kind) : e.line < x.line := by
  cases h with
  | intro later _ _ _ => exact later kind x hx

theorem inner (h : e.Placed) {kind : Kind} (hx : x ∈ e.members kind) : x.Placed := by
  cases h with
  | intro _ inner _ _ => exact inner kind x hx

theorem ordered (h : e.Placed) (kind : Kind) :
    (e.members kind).Pairwise fun x y ↦ x.last < y.line := by
  cases h with
  | intro _ _ ordered _ => exact ordered kind

theorem members_apart (h : e.Placed) {kind kind' : Kind} (hne : kind ≠ kind')
    (hx : x ∈ e.members kind) (hy : y ∈ e.members kind') :
    x.last < y.line ∨ y.last < x.line := by
  cases h with
  | intro _ _ _ apart => exact apart kind kind' hne x hx y hy

theorem siblings_ordered (h : e.Placed) {kind : Kind} {i j : ℕ} (hij : i < j)
    (hx : e.child? ⟨kind, i⟩ = some x) (hy : e.child? ⟨kind, j⟩ = some y) : x.last < y.line := by
  obtain ⟨hi, rfl⟩ := List.getElem?_eq_some_iff.mp hx
  obtain ⟨hj, rfl⟩ := List.getElem?_eq_some_iff.mp hy
  exact List.pairwise_iff_getElem.mp (h.ordered kind) i j hi hj hij

theorem children_apart (h : e.Placed) {c d : Slot} (hcd : c ≠ d)
    (hx : e.child? c = some x) (hy : e.child? d = some y) :
    x.last < y.line ∨ y.last < x.line := by
  obtain ⟨kind, i⟩ := c
  obtain ⟨kind', j⟩ := d
  by_cases hkind : kind = kind'
  · subst hkind
    rcases Nat.lt_trichotomy i j with hij | rfl | hji
    · exact .inl (h.siblings_ordered hij hx hy)
    · exact absurd rfl hcd
    · exact .inr (h.siblings_ordered hji hy hx)
  · exact h.members_apart hkind (List.mem_of_getElem? hx) (List.mem_of_getElem? hy)

theorem at? (h : e.Placed) (ha : a ≠ []) (hx : e.at? a = some x) :
    e.line < x.line ∧ x.Placed := by
  induction a generalizing e with
  | nil => exact absurd rfl ha
  | cons c rest ih =>
      obtain ⟨child, hchild, hx⟩ := Option.bind_eq_some_iff.mp hx
      have hmem := List.mem_of_getElem? hchild
      by_cases hrest : rest = []
      · subst hrest
        obtain rfl : child = x := Option.some.inj hx
        exact ⟨h.later hmem, h.inner hmem⟩
      · obtain ⟨hline, hplaced⟩ := ih (h.inner hmem) hrest hx
        exact ⟨Nat.lt_trans (h.later hmem) hline, hplaced⟩

theorem line_le_of_at? (h : e.Placed) (hx : e.at? a = some x) : e.line ≤ x.line := by
  by_cases ha : a = []
  · subst ha
    exact Nat.le_of_eq (congrArg line (Option.some.inj hx))
  · exact Nat.le_of_lt (h.at? ha hx).1

theorem placed_of_at? (h : e.Placed) (hx : e.at? a = some x) : x.Placed := by
  by_cases ha : a = []
  · subst ha
    exact Option.some.inj hx ▸ h
  · exact (h.at? ha hx).2

theorem siblings_ordered_at (h : e.Placed) {kind : Kind} {i j : ℕ} (hij : i < j)
    (hx : e.at? (a ++ [⟨kind, i⟩]) = some x) (hy : e.at? (a ++ [⟨kind, j⟩]) = some y) :
    x.last < y.line := by
  rw [at?_append] at hx hy
  obtain ⟨parent, hparent, hx⟩ := Option.bind_eq_some_iff.mp hx
  rw [hparent, Option.bind_some] at hy
  obtain ⟨u, hu, hux⟩ := Option.bind_eq_some_iff.mp hx
  obtain ⟨v, hv, hvy⟩ := Option.bind_eq_some_iff.mp hy
  obtain rfl : u = x := Option.some.inj hux
  obtain rfl : v = y := Option.some.inj hvy
  exact (h.placed_of_at? hparent).siblings_ordered hij hu hv

/-- What an element holds starts after it. -/
theorem line_lt_of_isPrefix (h : e.Placed) (hx : e.at? a = some x)
    (hy : e.at? b = some y) (hab : a <+: b) (hne : a ≠ b) : x.line < y.line := by
  obtain ⟨rest, rfl⟩ := hab
  rw [at?_append, hx] at hy
  refine ((h.placed_of_at? hx).at? ?_ hy).1
  rintro rfl
  exact hne (List.append_nil a).symm

/-- Two elements of which neither holds the other span lines apart from each other. -/
theorem apart (h : e.Placed) (hx : e.at? a = some x) (hy : e.at? b = some y)
    (hab : ¬a <+: b) (hba : ¬b <+: a) : x.last < y.line ∨ y.last < x.line := by
  induction a generalizing e b with
  | nil => exact absurd List.nil_prefix hab
  | cons c rest ih =>
      cases b with
      | nil => exact absurd List.nil_prefix hba
      | cons d rest' =>
          obtain ⟨u, hu, hx⟩ := Option.bind_eq_some_iff.mp hx
          obtain ⟨v, hv, hy⟩ := Option.bind_eq_some_iff.mp hy
          have hplaced := h.inner (List.mem_of_getElem? hu)
          have hplaced' := h.inner (List.mem_of_getElem? hv)
          by_cases hcd : c = d
          · -- both go on from the same child
            subst hcd
            obtain rfl := Option.some.inj (hu.symm.trans hv)
            rw [List.cons_prefix_cons] at hab hba
            exact ih hplaced hx hy (fun hp ↦ hab ⟨rfl, hp⟩) fun hp ↦ hba ⟨rfl, hp⟩
          · have hxu := last_le_of_at? hx
            have hyv := last_le_of_at? hy
            have hux := hplaced.line_le_of_at? hx
            have hvy := hplaced'.line_le_of_at? hy
            rcases h.children_apart hcd hu hv with huv | hvu
            · exact .inl (by omega)
            · exact .inr (by omega)

/-- Among all elements, those that start within the span of an element are what it holds. -/
theorem starts_within_iff (h : e.Placed) (hx : e.at? a = some x) (hy : e.at? b = some y) :
    x.line ≤ y.line ∧ y.line ≤ x.last ↔ a <+: b := by
  constructor
  · rintro ⟨hle, hlast⟩
    by_contra hab
    by_cases hba : b <+: a
    · have hne : b ≠ a := fun heq ↦ hab (heq ▸ List.prefix_rfl)
      have hlt := h.line_lt_of_isPrefix hy hx hba hne
      omega
    · have hspan := y.line_le_last
      rcases h.apart hx hy hab hba with hlt | hlt <;> omega
  · rintro ⟨rest, rfl⟩
    rw [at?_append, hx] at hy
    have hplaced := h.placed_of_at? hx
    exact ⟨hplaced.line_le_of_at? hy, Nat.le_trans y.line_le_last (last_le_of_at? hy)⟩

end Placed

/-! ## Adding a member -/

/-- The second element holds one more member than the first one, after all others of its kind. -/
structure Extends (e e' : Element) (kind : Kind) (x : Element) : Prop where
  members_self : e'.members kind = e.members kind ++ [x]
  members_ne : ∀ kind', kind' ≠ kind → e'.members kind' = e.members kind'
  bare_eq : e'.bare = e.bare

variable {e' : Element} {kind : Kind}

namespace Extends

theorem line_eq (h : e.Extends e' kind x) : e'.line = e.line := by
  rw [← line_bare, h.bare_eq, line_bare]

theorem mem_iff (h : e.Extends e' kind x) (kind' : Kind) :
    y ∈ e'.members kind' ↔ y ∈ e.members kind' ∨ kind' = kind ∧ y = x := by
  by_cases hkind : kind' = kind
  · subst hkind
    simp [h.members_self]
  · simp [h.members_ne kind' hkind, hkind]

theorem last_le_iff (h : e.Extends e' kind x) : e'.last ≤ n ↔ e.last ≤ n ∧ x.last ≤ n := by
  rw [Element.last_le_iff, Element.last_le_iff (e := e), h.line_eq]
  constructor
  · rintro ⟨hline, hmembers⟩
    refine ⟨⟨hline, fun kind' y hy ↦ ?_⟩, ?_⟩
    · exact hmembers kind' y ((h.mem_iff kind').mpr (.inl hy))
    · exact hmembers kind x ((h.mem_iff kind).mpr (.inr ⟨rfl, rfl⟩))
  · rintro ⟨⟨hline, hmembers⟩, hx⟩
    refine ⟨hline, fun kind' y hy ↦ ?_⟩
    rcases (h.mem_iff kind').mp hy with hy | ⟨-, rfl⟩
    · exact hmembers kind' y hy
    · exact hx

theorem last_lt_iff (h : e.Extends e' kind x) : e'.last < n ↔ e.last < n ∧ x.last < n := by
  cases n with
  | zero => simp
  | succ n => simp only [Nat.lt_succ_iff, h.last_le_iff]

/-- A member that is declared after everything else keeps the element in order. -/
theorem placed (h : e.Extends e' kind x) (he : e.Placed) (hx : x.Placed)
    (hlast : e.last < x.line) : e'.Placed := by
  have hbefore {y : Element} {kind' : Kind} (hy : y ∈ e.members kind') : y.last < x.line :=
    Nat.lt_of_le_of_lt (last_le_of_mem hy) hlast
  constructor
  · intro kind' y hy
    rw [h.line_eq]
    rcases (h.mem_iff kind').mp hy with hy | ⟨-, rfl⟩
    · exact he.later hy
    · exact Nat.lt_of_le_of_lt e.line_le_last hlast
  · intro kind' y hy
    rcases (h.mem_iff kind').mp hy with hy | ⟨-, rfl⟩
    · exact he.inner hy
    · exact hx
  · intro kind'
    by_cases hkind : kind' = kind
    · subst hkind
      rw [h.members_self, List.pairwise_append]
      refine ⟨he.ordered kind', List.pairwise_singleton _ x, fun y hy z hz ↦ ?_⟩
      rw [List.mem_singleton.mp hz]
      exact hbefore hy
    · rw [h.members_ne kind' hkind]
      exact he.ordered kind'
  · intro kind₁ kind₂ hne y hy z hz
    rcases (h.mem_iff kind₁).mp hy with hy | ⟨rfl, rfl⟩
    · rcases (h.mem_iff kind₂).mp hz with hz | ⟨-, rfl⟩
      · exact he.members_apart hne hy hz
      · exact .inl (hbefore hy)
    · rcases (h.mem_iff kind₂).mp hz with hz | ⟨rfl, -⟩
      · exact .inr (hbefore hz)
      · exact absurd rfl hne

end Extends

theorem extends_addField (m : Message) (f : Field) :
    (message m).Extends (message (m.addField f)) .field (field f) where
  members_self := by simp [members, Message.addField]
  members_ne kind' hne := by cases kind' <;> simp_all [members, Message.addField]
  bare_eq := rfl

theorem extends_addMessage (m nested : Message) :
    (message m).Extends (message (m.addMessage nested)) .message (message nested) where
  members_self := by simp [members, Message.addMessage]
  members_ne kind' hne := by cases kind' <;> simp_all [members, Message.addMessage]
  bare_eq := rfl

theorem extends_addEnum (m : Message) (decl : EnumDecl) :
    (message m).Extends (message (m.addEnum decl)) .enum (enum decl) where
  members_self := by simp [members, Message.addEnum]
  members_ne kind' hne := by cases kind' <;> simp_all [members, Message.addEnum]
  bare_eq := rfl

theorem extends_addValue (decl : EnumDecl) (v : Enumerator) :
    (enum decl).Extends (enum { decl with values := decl.values ++ [v] }) .enumerator
      (enumerator v) where
  members_self := by simp [members]
  members_ne kind' hne := by cases kind' <;> simp_all [members]
  bare_eq := rfl

theorem extends_topMessage (messages : List Message) (enums : List EnumDecl) (m : Message) :
    (top ⟨messages, enums⟩).Extends (top ⟨messages ++ [m], enums⟩) .message (message m) where
  members_self := by simp [members]
  members_ne kind' hne := by cases kind' <;> simp_all [members]
  bare_eq := rfl

theorem extends_topEnum (messages : List Message) (enums : List EnumDecl) (decl : EnumDecl) :
    (top ⟨messages, enums⟩).Extends (top ⟨messages, enums ++ [decl]⟩) .enum (enum decl) where
  members_self := by simp [members]
  members_ne kind' hne := by cases kind' <;> simp_all [members]
  bare_eq := rfl

end Element

end ProtoHeader

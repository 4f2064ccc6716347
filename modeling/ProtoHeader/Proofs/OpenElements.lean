import Mathlib.Data.Int.Notation
import Mathlib.Logic.Relation
import ProtoHeader.Proofs.Elements

/-!
# Open elements

While lines are read some elements are open: an enumeration, the messages around it, and the top
level.  A line does one of four things to this stack.  It leaves it alone, opens an element that it
declares, adds an element that it declares to the innermost one, or closes the innermost one into
the next; and the end of the lines closes all of them.  What these moves keep therefore holds of
every schema that is read.

Main statements: `Schema.exists_captured`, every element is declared on one of the lines, and
`Progress.placed_of_steps`, numbers that increase from line to line put all elements in order.
-/

namespace ProtoHeader

open Source Relation

/-- A choice group is no element: its fields belong to the message around it. -/
def Inner.element? : Inner → Option Element
  | .enum decl => some (.enum decl)
  | .oneof _ => none

/-- The top level with what has been closed into it. -/
def Progress.content (p : Progress) : Element :=
  .top ⟨p.messages, p.enums⟩

/-- The open elements, innermost first, and the top level last. -/
def Progress.stack (p : Progress) : List Element :=
  (p.inner.bind Inner.element?).toList ++ p.opened.map .message ++ [p.content]

/-- The innermost element is closed into the next one. -/
inductive Closes : List Element → List Element → Prop
  | intro {e e' x : Element} {kind : Kind} (h : e.Extends e' kind x) (rest : List Element) :
      Closes (x :: e :: rest) (e' :: rest)

/-- What a line can do to the open elements. -/
inductive Move (l : Line) : List Element → List Element → Prop
  | stay (stack : List Element) : Move l stack stack
  | opening {x : Element} (captured : x.CapturedFrom l) (bare : x.bare = x)
      (stack : List Element) : Move l stack (x :: stack)
  | adding {e e' x : Element} {kind : Kind} (captured : x.CapturedFrom l) (bare : x.bare = x)
      (h : e.Extends e' kind x) (rest : List Element) : Move l (e :: rest) (e' :: rest)
  | closing {stack stack' : List Element} (h : Closes stack stack') : Move l stack stack'

/-! ## Members -/

theorem Grammar.tag?_bounds {digits : List Char} {tag : ℕ} (h : Grammar.tag? digits = some tag) :
    0 < tag ∧ tag < 0x100000000 := by
  simpa using (Option.filter_eq_some_iff.mp h).2

theorem Grammar.enumNumber?_bounds {cs : List Char} {value : ℤ}
    (h : Grammar.enumNumber? cs = some value) : -0x80000000 ≤ value ∧ value < 0x80000000 := by
  simpa using (Option.filter_eq_some_iff.mp h).2

theorem Field.capturedFrom_of_ofLine? {l : Line} {f : Field} (h : Field.ofLine? l = .ok (some f)) :
    f.CapturedFrom l := by
  unfold Field.ofLine? at h
  cases hparts : Grammar.fieldParts? l.text.toList with
  | none => simp [hparts] at h
  | some parts =>
      cases htag : Grammar.tag? parts.digits with
      | none => simp [hparts, htag] at h
      | some tag =>
          simp only [hparts, htag, Except.ok.injEq, Option.some.injEq] at h
          subst h
          obtain ⟨hpos, hlt⟩ := Grammar.tag?_bounds htag
          exact ⟨rfl, hpos, hlt, parts, hparts, rfl, rfl, htag, rfl⟩

/-- The choice group of a field is not read from its line. -/
theorem Field.CapturedFrom.inGroup {l : Line} {f : Field} (h : f.CapturedFrom l)
    (group : Option String) : Field.CapturedFrom { f with oneof := group } l :=
  ⟨h.line_eq, h.tag_pos, h.tag_lt, h.parts⟩

theorem Enumerator.capturedFrom_of_ofLine? {l : Line} {v : Enumerator}
    (h : Enumerator.ofLine? l = .ok (some v)) : v.CapturedFrom l := by
  unfold Enumerator.ofLine? at h
  cases hparts : Grammar.enumeratorParts? l.text.toList with
  | none => simp [hparts] at h
  | some parts =>
      cases hvalue : Grammar.enumNumber? parts.value with
      | none => simp [hparts, hvalue] at h
      | some value =>
          simp only [hparts, hvalue, Except.ok.injEq, Option.some.injEq] at h
          subst h
          obtain ⟨hle, hlt⟩ := Grammar.enumNumber?_bounds hvalue
          exact ⟨rfl, hle, hlt, parts, hparts, rfl, hvalue⟩

/-! ## Steps -/

namespace Progress

variable {p q : Progress} {l : Line}

theorem move_openDecl {kind : DeclKind} (hinner : p.inner = none)
    (h : p.openDecl kind l = .ok q) : Move l p.stack q.stack := by
  obtain ⟨messages, enums, opened, inner⟩ := p
  obtain rfl : inner = none := hinner
  unfold openDecl at h
  cases hname : Grammar.declaredName? kind.keyword l.text.toList with
  | none => simp [hname] at h
  | some name =>
      simp only [hname, Except.ok.injEq] at h
      subst h
      cases kind with
      | message => exact .opening (x := .message ⟨name, l.number, [], [], []⟩) ⟨rfl, hname⟩ rfl _
      | enum => exact .opening (x := .enum ⟨name, l.number, []⟩) ⟨rfl, hname⟩ rfl _
      | oneof => exact .stay _

theorem move_addField {f : Field} (hf : f.CapturedFrom l)
    (hinner : p.inner.bind Inner.element? = none) : Move l p.stack (p.addField f).stack := by
  rcases p with ⟨messages, enums, _ | ⟨m, rest⟩, inner⟩
  · exact .stay _
  · have hadd := Move.adding (l := l) (x := .field f) hf rfl (Element.extends_addField m f)
      (rest.map .message ++ [.top ⟨messages, enums⟩])
    simpa [stack, content, addField, show inner.bind Inner.element? = none from hinner] using hadd

theorem closes_addEnum (p : Progress) (decl : EnumDecl) (hinner : p.inner = none) :
    Closes (.enum decl :: p.stack) (p.addEnum decl).stack := by
  rcases p with ⟨messages, enums, _ | ⟨m, rest⟩, inner⟩
  · obtain rfl : inner = none := hinner
    exact .intro (Element.extends_topEnum messages enums decl) _
  · obtain rfl : inner = none := hinner
    exact .intro (Element.extends_addEnum m decl) _

theorem closes_closeInner {decl : EnumDecl} (hinner : p.inner = some (.enum decl)) :
    Closes p.stack p.closeInner.stack := by
  have hclose := closes_addEnum { p with inner := none } decl rfl
  rw [closeInner, hinner]
  simpa [stack, content, hinner, Inner.element?] using hclose

theorem closes_closeMessage (hinner : p.inner = none) (hopened : p.opened ≠ []) :
    Closes p.stack p.closeMessage.stack := by
  rcases p with ⟨messages, enums, _ | ⟨m, _ | ⟨parent, rest⟩⟩, inner⟩
  · exact absurd rfl hopened
  · obtain rfl : inner = none := hinner
    exact .intro (Element.extends_topMessage messages enums m) []
  · obtain rfl : inner = none := hinner
    exact .intro (Element.extends_addMessage parent m) _

theorem move_stepTop (hinner : p.inner = none) (h : p.stepTop l = .ok q) :
    Move l p.stack q.stack := by
  unfold stepTop at h
  split at h
  · exact move_openDecl hinner h
  · exact move_openDecl hinner h
  · cases h
    exact .stay _

theorem move_stepMessage (hinner : p.inner = none) (hopened : p.opened ≠ [])
    (h : p.stepMessage l = .ok q) : Move l p.stack q.stack := by
  unfold stepMessage at h
  split at h
  · cases h
    exact .closing (closes_closeMessage hinner hopened)
  · split at h
    · exact move_openDecl hinner h
    · obtain ⟨_ | f, hf, h⟩ := exists_of_bind_ok h
      · cases h
        exact .stay _
      · cases h
        exact move_addField (Field.capturedFrom_of_ofLine? hf) (by rw [hinner]; rfl)

theorem move_stepEnum {decl : EnumDecl} (hinner : p.inner = some (.enum decl))
    (h : p.stepEnum decl l = .ok q) : Move l p.stack q.stack := by
  unfold stepEnum at h
  split at h
  · cases h
    exact .closing (closes_closeInner hinner)
  · obtain ⟨_ | v, hv, h⟩ := exists_of_bind_ok h
    · cases h
      exact .stay _
    · cases h
      have hadd := Move.adding (x := .enumerator v) (Enumerator.capturedFrom_of_ofLine? hv) rfl
        (Element.extends_addValue decl v) (p.opened.map .message ++ [p.content])
      simpa [stack, content, hinner, Inner.element?] using hadd

theorem move_stepOneof {group : String} (hinner : p.inner = some (.oneof group))
    (h : p.stepOneof group l = .ok q) : Move l p.stack q.stack := by
  unfold stepOneof at h
  split at h
  · cases h
    have hsame : p.closeInner.stack = p.stack := by
      simp [closeInner, stack, content, hinner, Inner.element?]
    rw [hsame]
    exact .stay _
  · obtain ⟨_ | f, hf, h⟩ := exists_of_bind_ok h
    · cases h
      exact .stay _
    · cases h
      have hcaptured := (Field.capturedFrom_of_ofLine? hf).inGroup (some group)
      exact move_addField hcaptured (by rw [hinner]; rfl)

theorem move_of_step (h : p.step l = .ok q) : Move l p.stack q.stack := by
  rcases p with ⟨messages, enums, opened, _ | decl | group⟩
  · cases opened with
    | nil => exact move_stepTop rfl h
    | cons m rest => exact move_stepMessage rfl (List.cons_ne_nil m rest) h
  · exact move_stepEnum rfl h
  · exact move_stepOneof rfl h

theorem closes_closeInto (messages : List Message) (enums : List EnumDecl) (m : Message)
    (rest : List Message) :
    ReflTransGen Closes ((m :: rest).map .message ++ [.top ⟨messages, enums⟩])
      [.top ⟨messages ++ [m.closeInto rest], enums⟩] := by
  induction rest generalizing m with
  | nil => exact .single (.intro (Element.extends_topMessage messages enums m) [])
  | cons parent rest ih =>
      exact .head (.intro (Element.extends_addMessage parent m) _) (ih (parent.addMessage m))

theorem closes_closeAll (p : Progress) :
    ReflTransGen Closes p.stack [p.closeAll.content] := by
  have hinner : ReflTransGen Closes p.stack p.closeInner.stack ∧ p.closeInner.inner = none := by
    rcases p with ⟨messages, enums, opened, _ | decl | group⟩
    · exact ⟨.refl, rfl⟩
    · refine ⟨.single (closes_closeInner rfl), ?_⟩
      cases opened <;> rfl
    · exact ⟨.refl, rfl⟩
  refine hinner.1.trans ?_
  unfold closeAll
  generalize p.closeInner = q at hinner
  rcases q with ⟨messages, enums, _ | ⟨m, rest⟩, inner⟩
  · obtain rfl : inner = none := hinner.2
    exact .refl
  · obtain rfl : inner = none := hinner.2
    exact closes_closeInto messages enums m rest

end Progress

/-! ## Elements and their lines -/

namespace Element

variable {e e' x : Element} {kind : Kind}

/-- All elements that the element holds, at whatever depth, have the property. -/
def Holds (P : Element → Prop) (e : Element) : Prop :=
  ∀ a x, a ≠ [] → e.at? a = some x → P x

theorem holds_iff {P : Element → Prop} :
    e.Holds P ↔ ∀ kind, ∀ x ∈ e.members kind, P x ∧ x.Holds P := by
  constructor
  · intro h kind x hx
    obtain ⟨i, hi⟩ := List.mem_iff_getElem?.mp hx
    have hchild : e.child? ⟨kind, i⟩ = some x := hi
    refine ⟨h [⟨kind, i⟩] x (List.cons_ne_nil _ _) ?_, fun a y _ hy ↦ ?_⟩
    · simp [at?, hchild]
    · refine h (⟨kind, i⟩ :: a) y (List.cons_ne_nil _ _) ?_
      simp [at?, hchild, hy]
  · intro h a x ha hx
    cases a with
    | nil => exact absurd rfl ha
    | cons c rest =>
        obtain ⟨child, hchild, hx⟩ := Option.bind_eq_some_iff.mp hx
        obtain ⟨hown, hinner⟩ := h c.kind child (List.mem_of_getElem? hchild)
        cases rest with
        | nil => exact Option.some.inj hx ▸ hown
        | cons d rest => exact hinner (d :: rest) x (List.cons_ne_nil _ _) hx

theorem Holds.of_mem {P : Element → Prop} (h : e.Holds P) (kind : Kind) {x : Element}
    (hx : x ∈ e.members kind) : P x ∧ x.Holds P :=
  holds_iff.mp h kind x hx

theorem Extends.holds {P : Element → Prop} (h : e.Extends e' kind x) (he : e.Holds P) (hx : P x)
    (hinner : x.Holds P) : e'.Holds P := by
  rw [holds_iff] at he ⊢
  intro kind' y hy
  rcases (h.mem_iff kind').mp hy with hy | ⟨-, rfl⟩
  · exact he kind' y hy
  · exact ⟨hx, hinner⟩

theorem holds_of_bare {P : Element → Prop} (h : e.bare = e) : e.Holds P :=
  holds_iff.mpr fun kind x hx ↦ by simp [members_of_bare h] at hx

/-- The element is the top level, or is declared on one of the lines. -/
def ReadFrom (lines : List Line) (e : Element) : Prop :=
  e.bare = top ⟨[], []⟩ ∨ ∃ l ∈ lines, e.bare.CapturedFrom l

theorem capturedFrom_bare {l : Line} : e.bare.CapturedFrom l ↔ e.CapturedFrom l := by
  cases e <;> rfl

theorem readFrom_of_capturedFrom {lines : List Line} {l : Line} (hl : l ∈ lines)
    (h : e.CapturedFrom l) : e.ReadFrom lines :=
  .inr ⟨l, hl, capturedFrom_bare.mpr h⟩

theorem Extends.readFrom {lines : List Line} (h : e.Extends e' kind x) (he : e.ReadFrom lines) :
    e'.ReadFrom lines := by
  rwa [ReadFrom, h.bare_eq]

theorem bare_ne_top_of_mem (hx : x ∈ e.members kind) : x.bare ≠ top ⟨[], []⟩ := by
  cases e <;> cases kind <;> simp only [members, List.mem_map, List.not_mem_nil] at hx <;>
    obtain ⟨_, -, rfl⟩ := hx <;> simp [bare]

theorem bare_ne_top_of_at? {a : Address} (ha : a ≠ []) (hx : e.at? a = some x) :
    x.bare ≠ top ⟨[], []⟩ := by
  obtain ⟨init, c, rfl⟩ := (List.eq_nil_or_concat a).resolve_left ha
  rw [List.concat_eq_append, at?_append] at hx
  obtain ⟨parent, -, hx⟩ := Option.bind_eq_some_iff.mp hx
  obtain ⟨child, hchild, hx⟩ := Option.bind_eq_some_iff.mp hx
  obtain rfl : child = x := Option.some.inj hx
  exact bare_ne_top_of_mem (List.mem_of_getElem? hchild)

theorem placed_of_bare (h : e.bare = e) : e.Placed := by
  have hnone {kind : Kind} {x : Element} : x ∉ e.members kind := by simp [members_of_bare h]
  constructor
  · exact fun _ _ hx ↦ absurd hx hnone
  · exact fun _ _ hx ↦ absurd hx hnone
  · intro kind
    rw [members_of_bare h]
    exact .nil
  · exact fun _ _ _ _ hx ↦ absurd hx hnone

theorem last_of_bare (h : e.bare = e) : e.last = e.line := by
  refine Nat.le_antisymm (last_le_iff.mpr ⟨Nat.le_refl _, fun kind x hx ↦ ?_⟩) e.line_le_last
  simp [members_of_bare h] at hx

end Element

/-! ## Runs -/

/-- What every move keeps holds after reading, and what closing keeps holds of the schema. -/
theorem Progress.invariant_of_steps {I : List Line → List Element → Prop}
    (hmove : ∀ l rest stack stack', I (l :: rest) stack → Move l stack stack' → I rest stack')
    {p q : Progress} {lines : List Line} (h : p.steps lines = .ok q) (hp : I lines p.stack) :
    I [] q.stack := by
  induction lines generalizing p with
  | nil =>
      cases h
      exact hp
  | cons l lines ih =>
      rw [steps, List.foldlM_cons] at h
      obtain ⟨r, hr, h⟩ := exists_of_bind_ok h
      exact ih h (hmove l lines p.stack r.stack hp (move_of_step hr))

theorem Progress.invariant_of_closeAll {I : List Element → Prop}
    (hclose : ∀ stack stack', I stack → Closes stack stack' → I stack') (p : Progress)
    (hp : I p.stack) : I [p.closeAll.content] := by
  have hcloses := p.closes_closeAll
  generalize [p.closeAll.content] = final at hcloses ⊢
  induction hcloses with
  | refl => exact hp
  | tail _ hlast ih => exact hclose _ _ ih hlast

/-- Everything open, and everything in it, is declared on one of the lines. -/
def StackRead (lines : List Line) (stack : List Element) : Prop :=
  ∀ x ∈ stack, x.ReadFrom lines ∧ x.Holds (Element.ReadFrom lines)

theorem StackRead.closes {lines : List Line} {stack stack' : List Element}
    (h : StackRead lines stack) (hclose : Closes stack stack') : StackRead lines stack' := by
  cases hclose with
  | intro hext rest =>
      rw [StackRead, List.forall_mem_cons, List.forall_mem_cons] at h
      rw [StackRead, List.forall_mem_cons]
      obtain ⟨⟨hx, hxinner⟩, ⟨he, heinner⟩, hrest⟩ := h
      exact ⟨⟨hext.readFrom he, hext.holds heinner hx hxinner⟩, hrest⟩

theorem StackRead.move {lines : List Line} {l : Line} (hl : l ∈ lines) {stack stack' : List Element}
    (h : StackRead lines stack) (hmove : Move l stack stack') : StackRead lines stack' := by
  cases hmove with
  | stay => exact h
  | opening captured bare =>
      rw [StackRead, List.forall_mem_cons]
      exact ⟨⟨Element.readFrom_of_capturedFrom hl captured, Element.holds_of_bare bare⟩, h⟩
  | adding captured bare hext rest =>
      rw [StackRead, List.forall_mem_cons] at h ⊢
      obtain ⟨⟨he, heinner⟩, hrest⟩ := h
      have hx := Element.readFrom_of_capturedFrom hl captured
      exact ⟨⟨hext.readFrom he, hext.holds heinner hx (Element.holds_of_bare bare)⟩, hrest⟩
  | closing hclose => exact h.closes hclose

/-- The lines still to be read come after everything open, what is open is nested, and everything
in it is in order. -/
structure StackPlaced (lines : List Line) (stack : List Element) : Prop where
  increasing : lines.Pairwise (·.number < ·.number)
  ahead : ∀ l ∈ lines, ∀ x ∈ stack, x.last < l.number
  nested : stack.Pairwise fun inner outer ↦ outer.last < inner.line
  placed : ∀ x ∈ stack, x.Placed

namespace StackPlaced

variable {l : Line} {lines : List Line} {stack stack' : List Element}

theorem of_cons (h : StackPlaced (l :: lines) stack) : StackPlaced lines stack where
  increasing := h.increasing.of_cons
  ahead l' hl' := h.ahead l' (List.mem_cons_of_mem l hl')
  nested := h.nested
  placed := h.placed

/-- A member of the innermost element that is declared after everything else, and before the
lines to come. -/
theorem extend {e e' x : Element} {kind : Kind} {rest : List Element}
    (h : StackPlaced lines (e :: rest)) (hext : e.Extends e' kind x) (hx : x.Placed)
    (hlast : e.last < x.line) (hahead : ∀ l ∈ lines, x.last < l.number) :
    StackPlaced lines (e' :: rest) where
  increasing := h.increasing
  ahead l hl := by
    have hrest := h.ahead l hl
    rw [List.forall_mem_cons] at hrest ⊢
    exact ⟨hext.last_lt_iff.mpr ⟨hrest.1, hahead l hl⟩, hrest.2⟩
  nested := by
    have hnested := h.nested
    rw [List.pairwise_cons] at hnested ⊢
    rwa [hext.line_eq]
  placed := by
    have hplaced := h.placed
    rw [List.forall_mem_cons] at hplaced ⊢
    exact ⟨hext.placed hplaced.1 hx hlast, hplaced.2⟩

theorem closes (h : StackPlaced lines stack) (hclose : Closes stack stack') :
    StackPlaced lines stack' := by
  cases hclose with
  | @intro e _ x _ hext rest =>
      have hbelow : StackPlaced lines (e :: rest) :=
        { increasing := h.increasing
          ahead := fun l hl ↦ (List.forall_mem_cons.mp (h.ahead l hl)).2
          nested := h.nested.of_cons
          placed := (List.forall_mem_cons.mp h.placed).2 }
      refine hbelow.extend hext (h.placed x List.mem_cons_self) ?_ fun l hl ↦ ?_
      · exact List.rel_of_pairwise_cons h.nested List.mem_cons_self
      · exact h.ahead l hl x List.mem_cons_self

theorem move (h : StackPlaced (l :: lines) stack) (hmove : Move l stack stack') :
    StackPlaced lines stack' := by
  have hnext : ∀ {x : Element}, x.CapturedFrom l → x.bare = x →
      x.line = l.number ∧ ∀ l' ∈ lines, x.last < l'.number := by
    intro x hx hbare
    have hline := Element.line_of_capturedFrom hx
    refine ⟨hline, fun l' hl' ↦ ?_⟩
    rw [Element.last_of_bare hbare, hline]
    exact List.rel_of_pairwise_cons h.increasing hl'
  cases hmove with
  | stay => exact h.of_cons
  | @opening x captured bare =>
      obtain ⟨hline, hahead⟩ := hnext captured bare
      refine ⟨h.of_cons.increasing, fun l' hl' ↦ ?_, ?_, ?_⟩
      · exact List.forall_mem_cons.mpr ⟨hahead l' hl', h.of_cons.ahead l' hl'⟩
      · refine List.pairwise_cons.mpr ⟨fun outer houter ↦ ?_, h.nested⟩
        rw [hline]
        exact h.ahead l List.mem_cons_self outer houter
      · exact List.forall_mem_cons.mpr ⟨Element.placed_of_bare bare, h.placed⟩
  | @adding e _ _ _ captured bare hext rest =>
      obtain ⟨hline, hahead⟩ := hnext captured bare
      refine h.of_cons.extend hext (Element.placed_of_bare bare) ?_ hahead
      rw [hline]
      exact h.ahead l List.mem_cons_self e List.mem_cons_self
  | closing hclose => exact h.of_cons.closes hclose

end StackPlaced

namespace Progress

variable {p : Progress} {lines : List Line}

/-- Everything that is read is declared on one of the lines. -/
theorem exists_captured_of_steps (h : start.steps lines = .ok p) {a : Address} (ha : a ≠ [])
    {x : Element} (hx : p.closeAll.content.at? a = some x) : ∃ l ∈ lines, x.CapturedFrom l := by
  let I (ahead : List Line) (stack : List Element) : Prop :=
    (∀ l ∈ ahead, l ∈ lines) ∧ StackRead lines stack
  have hmove (l : Line) (rest : List Line) (stack stack' : List Element) (hI : I (l :: rest) stack)
      (hmove : Move l stack stack') : I rest stack' := by
    obtain ⟨hmem, hread⟩ := hI
    rw [List.forall_mem_cons] at hmem
    exact ⟨hmem.2, hread.move hmem.1 hmove⟩
  have hstart : StackRead lines start.stack := by
    intro x hx
    obtain rfl : x = start.content := List.mem_singleton.mp hx
    exact ⟨.inl rfl, Element.holds_of_bare rfl⟩
  have hread := (invariant_of_steps hmove h ⟨fun _ hl ↦ hl, hstart⟩).2
  have hclosed := invariant_of_closeAll (fun _ _ ↦ StackRead.closes) p hread
  have hx' := (hclosed _ List.mem_cons_self).2 a x ha hx
  obtain ⟨l, hl, hcaptured⟩ := hx'.resolve_left (Element.bare_ne_top_of_at? ha hx)
  exact ⟨l, hl, Element.capturedFrom_bare.mp hcaptured⟩

/-- If the lines are numbered in increasing order, then what is read is in order. -/
theorem placed_of_steps (h : start.steps lines = .ok p) (hpos : ∀ l ∈ lines, 0 < l.number)
    (hincreasing : lines.Pairwise (·.number < ·.number)) : p.closeAll.content.Placed := by
  have hstart : StackPlaced lines start.stack :=
    { increasing := hincreasing
      ahead := fun l hl x hx ↦ by
        obtain rfl : x = start.content := List.mem_singleton.mp hx
        exact hpos l hl
      nested := List.pairwise_singleton _ _
      placed := fun x hx ↦ by
        obtain rfl : x = start.content := List.mem_singleton.mp hx
        exact Element.placed_of_bare rfl }
  have hplaced := invariant_of_steps (fun _ _ _ _ ↦ StackPlaced.move) h hstart
  exact (invariant_of_closeAll (fun _ _ ↦ StackPlaced.closes) p hplaced).placed _ List.mem_cons_self

end Progress

/-! ## Schemas -/

namespace Schema

def content (s : Schema) : Element :=
  .top ⟨s.messages, s.enums⟩

/-- The element at an address.  The top level itself is none. -/
def elementAt? (s : Schema) : Address → Option Element
  | [] => none
  | a => s.content.at? a

theorem elementAt?_eq_some_iff {s : Schema} {a : Address} {x : Element} :
    s.elementAt? a = some x ↔ a ≠ [] ∧ s.content.at? a = some x := by
  cases a <;> simp [elementAt?]

theorem exists_steps_of_parse {lines : List Line} {s : Schema} (h : parse lines = .ok s) :
    ∃ versionIndex packageIndex progress,
      findVersion lines = .ok versionIndex ∧ findPackage lines = .ok (packageIndex, s.package) ∧
        Progress.start.steps (lines.drop (max versionIndex packageIndex + 1)) = .ok progress ∧
          s.content = progress.closeAll.content := by
  obtain ⟨versionIndex, hversion, h⟩ := exists_of_bind_ok h
  obtain ⟨⟨packageIndex, package⟩, hpackage, h⟩ := exists_of_bind_ok h
  obtain ⟨progress, hsteps, h⟩ := exists_of_bind_ok h
  cases h
  exact ⟨versionIndex, packageIndex, progress, hversion, hpackage, hsteps, rfl⟩

/-- Every element of a schema is declared on one of its lines. -/
theorem exists_captured {lines : List Line} {s : Schema} (h : parse lines = .ok s) {a : Address}
    {x : Element} (hx : s.elementAt? a = some x) : ∃ l ∈ lines, x.CapturedFrom l := by
  obtain ⟨ha, hx⟩ := elementAt?_eq_some_iff.mp hx
  obtain ⟨versionIndex, packageIndex, progress, -, -, hsteps, hcontent⟩ := exists_steps_of_parse h
  rw [hcontent] at hx
  obtain ⟨l, hl, hcaptured⟩ := Progress.exists_captured_of_steps hsteps ha hx
  exact ⟨l, List.mem_of_mem_drop hl, hcaptured⟩

end Schema

end ProtoHeader

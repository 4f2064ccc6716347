import ProtoHeader.Proofs.Revision
import ProtoHeader.Schema.Parse

/-!
# Renumbered lines

Reading declarations copies the numbers of the lines into what it declares and into its faults, and
never looks at them.  Lines with other numbers therefore give the same declarations, or the same
fault, with those numbers.
-/

namespace ProtoHeader

open Source

def Source.Line.renumbered (g : ℕ → ℕ) (l : Line) : Line :=
  ⟨l.text, g l.number⟩

def Fault.renumbered (g : ℕ → ℕ) : Fault → Fault
  | unsupportedSyntaxVersion version line => unsupportedSyntaxVersion version (g line)
  | missingSyntaxDeclaration line => missingSyntaxDeclaration (g line)
  | missingPackageDeclaration line => missingPackageDeclaration (g line)
  | malformedDeclaration kind text line => malformedDeclaration kind text (g line)
  | malformedEnumValue name value line => malformedEnumValue name value (g line)
  | malformedFieldTag field tag line => malformedFieldTag field tag (g line)
  | unknownLanguage name => unknownLanguage name
  | untypedPath path => untypedPath path
  | inaccessible path => inaccessible path

def Enumerator.renumbered (g : ℕ → ℕ) (v : Enumerator) : Enumerator :=
  { v with line := g v.line }

def renumbering (g : ℕ → ℕ) : Revision where
  line := g
  field f := { f with line := g f.line }
  enum e := ⟨e.name, g e.line, e.values.map (Enumerator.renumbered g)⟩

/-- A result with other line numbers, where `renumber` says what that means for a value. -/
def renumberedResult (g : ℕ → ℕ) {α β : Type} (renumber : α → β) : Except Fault α → Except Fault β
  | .ok a => .ok (renumber a)
  | .error fault => .error (fault.renumbered g)

variable (g : ℕ → ℕ)

theorem renumberedResult_bind {α α' β β' : Type} {renumber : α → α'} {renumber' : β → β'}
    {next : α → Except Fault β} {next' : α' → Except Fault β'}
    (h : ∀ a, renumberedResult g renumber' (next a) = next' (renumber a)) (x : Except Fault α) :
    renumberedResult g renumber' (x >>= next) = renumberedResult g renumber x >>= next' := by
  cases x with
  | error fault => rfl
  | ok a => exact h a

/-! ## Members -/

theorem Field.ofLine?_renumbered (l : Line) :
    renumberedResult g (Option.map (renumbering g).field) (Field.ofLine? l) =
      Field.ofLine? (l.renumbered g) := by
  unfold Field.ofLine?
  cases hparts : Grammar.fieldParts? l.text.toList with
  | none => simp [Line.renumbered, hparts, renumberedResult]
  | some parts =>
      cases htag : Grammar.tag? parts.digits with
      | none => simp [Line.renumbered, hparts, htag, renumberedResult, Fault.renumbered]
      | some tag =>
          simp [Line.renumbered, hparts, htag, renumberedResult, renumbering, Field.declare]

theorem Enumerator.ofLine?_renumbered (l : Line) :
    renumberedResult g (Option.map (Enumerator.renumbered g)) (Enumerator.ofLine? l) =
      Enumerator.ofLine? (l.renumbered g) := by
  unfold Enumerator.ofLine?
  cases hparts : Grammar.enumeratorParts? l.text.toList with
  | none => simp [Line.renumbered, hparts, renumberedResult]
  | some parts =>
      cases hvalue : Grammar.enumNumber? parts.value with
      | none => simp [Line.renumbered, hparts, hvalue, renumberedResult, Fault.renumbered]
      | some value =>
          simp [Line.renumbered, hparts, hvalue, renumberedResult, Enumerator.renumbered]

/-! ## Declarations -/

namespace Message

theorem revise_addField (r : Revision) (m : Message) (f : Field) :
    (m.addField f).revise r = (m.revise r).addField (r.field f) := by
  cases m
  simp [addField, revise]

theorem revise_addMessage (r : Revision) (m nested : Message) :
    (m.addMessage nested).revise r = (m.revise r).addMessage (nested.revise r) := by
  cases m
  simp [addMessage, revise, reviseAll_eq_map]

theorem revise_addEnum (r : Revision) (m : Message) (e : EnumDecl) :
    (m.addEnum e).revise r = (m.revise r).addEnum (r.enum e) := by
  cases m
  simp [addEnum, revise]

theorem revise_closeInto (r : Revision) (m : Message) (rest : List Message) :
    (m.closeInto rest).revise r = (m.revise r).closeInto (rest.map (revise r)) := by
  induction rest generalizing m with
  | nil => rfl
  | cons parent rest ih => rw [closeInto, ih, revise_addMessage, List.map_cons, closeInto]

end Message

def Inner.renumbered : Inner → Inner
  | .enum decl => .enum ((renumbering g).enum decl)
  | .oneof group => .oneof group

namespace Progress

def renumbered (p : Progress) : Progress where
  messages := p.messages.map (Message.revise (renumbering g))
  enums := p.enums.map (renumbering g).enum
  opened := p.opened.map (Message.revise (renumbering g))
  inner := p.inner.map (Inner.renumbered g)

theorem renumbered_addField (p : Progress) (f : Field) :
    (p.addField f).renumbered g = (p.renumbered g).addField ((renumbering g).field f) := by
  rcases p with ⟨messages, enums, opened, inner⟩
  cases opened with
  | nil => rfl
  | cons m rest => simp [addField, renumbered, Message.revise_addField]

theorem renumbered_addEnum (p : Progress) (e : EnumDecl) :
    (p.addEnum e).renumbered g = (p.renumbered g).addEnum ((renumbering g).enum e) := by
  rcases p with ⟨messages, enums, opened, inner⟩
  cases opened with
  | nil => simp [addEnum, renumbered]
  | cons m rest => simp [addEnum, renumbered, Message.revise_addEnum]

theorem renumbered_closeMessage (p : Progress) :
    p.closeMessage.renumbered g = (p.renumbered g).closeMessage := by
  rcases p with ⟨messages, enums, opened, inner⟩
  cases opened with
  | nil => rfl
  | cons m rest =>
      cases rest with
      | nil => simp [closeMessage, renumbered]
      | cons parent rest => simp [closeMessage, renumbered, Message.revise_addMessage]

theorem renumbered_closeInner (p : Progress) :
    p.closeInner.renumbered g = (p.renumbered g).closeInner := by
  rcases p with ⟨messages, enums, opened, inner⟩
  cases inner with
  | none => rfl
  | some inner =>
      cases inner with
      | enum decl => exact renumbered_addEnum g _ decl
      | oneof group => rfl

theorem renumbered_closeAll (p : Progress) :
    p.closeAll.renumbered g = (p.renumbered g).closeAll := by
  rw [closeAll, closeAll, ← renumbered_closeInner]
  generalize p.closeInner = q
  rcases q with ⟨messages, enums, opened, inner⟩
  cases opened with
  | nil => rfl
  | cons m rest => simp [renumbered, Message.revise_closeInto]

/-! ## Steps -/

theorem openDecl_renumbered (p : Progress) (kind : DeclKind) (l : Line) :
    renumberedResult g (renumbered g) (p.openDecl kind l) =
      (p.renumbered g).openDecl kind (l.renumbered g) := by
  unfold openDecl
  cases hname : Grammar.declaredName? kind.keyword l.text.toList with
  | none => simp [Line.renumbered, hname, renumberedResult, Fault.renumbered]
  | some name =>
      cases kind <;>
        simp [Line.renumbered, hname, renumberedResult, renumbered, Message.revise,
          Message.reviseAll, Inner.renumbered, renumbering]

theorem stepTop_renumbered (p : Progress) (l : Line) :
    renumberedResult g (renumbered g) (p.stepTop l) =
      (p.renumbered g).stepTop (l.renumbered g) := by
  have hkind : declKind? (l.renumbered g) = declKind? l := rfl
  rw [stepTop, stepTop, hkind]
  split
  · exact openDecl_renumbered g p .message l
  · exact openDecl_renumbered g p .enum l
  · rfl

theorem stepMessage_renumbered (p : Progress) (l : Line) :
    renumberedResult g (renumbered g) (p.stepMessage l) =
      (p.renumbered g).stepMessage (l.renumbered g) := by
  have hkind : declKind? (l.renumbered g) = declKind? l := rfl
  have hcloses : (l.renumbered g).closes = l.closes := rfl
  rw [stepMessage, stepMessage, hkind, hcloses]
  split
  · exact congrArg Except.ok (renumbered_closeMessage g p)
  · split
    · next kind _ => exact openDecl_renumbered g p kind l
    · rw [← Field.ofLine?_renumbered]
      apply renumberedResult_bind
      intro f?
      cases f? with
      | none => rfl
      | some f => exact congrArg Except.ok (renumbered_addField g p f)

theorem stepEnum_renumbered (p : Progress) (decl : EnumDecl) (l : Line) :
    renumberedResult g (renumbered g) (p.stepEnum decl l) =
      (p.renumbered g).stepEnum ((renumbering g).enum decl) (l.renumbered g) := by
  have hcloses : (l.renumbered g).closes = l.closes := rfl
  rw [stepEnum, stepEnum, hcloses]
  split
  · exact congrArg Except.ok (renumbered_closeInner g p)
  · rw [← Enumerator.ofLine?_renumbered]
    apply renumberedResult_bind
    intro v?
    cases v? with
    | none => rfl
    | some v =>
        apply congrArg Except.ok
        simp [renumbered, Inner.renumbered, renumbering]

theorem stepOneof_renumbered (p : Progress) (group : String) (l : Line) :
    renumberedResult g (renumbered g) (p.stepOneof group l) =
      (p.renumbered g).stepOneof group (l.renumbered g) := by
  have hcloses : (l.renumbered g).closes = l.closes := rfl
  rw [stepOneof, stepOneof, hcloses]
  split
  · exact congrArg Except.ok (renumbered_closeInner g p)
  · rw [← Field.ofLine?_renumbered]
    apply renumberedResult_bind
    intro f?
    cases f? with
    | none => rfl
    | some f => exact congrArg Except.ok (renumbered_addField g p { f with oneof := some group })

theorem step_renumbered (p : Progress) (l : Line) :
    renumberedResult g (renumbered g) (p.step l) = (p.renumbered g).step (l.renumbered g) := by
  rcases p with ⟨messages, enums, opened, inner⟩
  cases inner with
  | none =>
      cases opened with
      | nil => exact stepTop_renumbered g _ l
      | cons m rest => exact stepMessage_renumbered g _ l
  | some inner =>
      cases inner with
      | enum decl => exact stepEnum_renumbered g _ decl l
      | oneof group => exact stepOneof_renumbered g _ group l

theorem steps_renumbered (p : Progress) (lines : List Line) :
    renumberedResult g (renumbered g) (p.steps lines) =
      (p.renumbered g).steps (lines.map (Line.renumbered g)) := by
  induction lines generalizing p with
  | nil => rfl
  | cons l lines ih =>
      rw [List.map_cons, steps, steps, List.foldlM_cons, List.foldlM_cons, ← step_renumbered]
      exact renumberedResult_bind g ih (p.step l)

end Progress

end ProtoHeader

import ProtoHeader.Compile
import ProtoHeader.Proofs.Revision

/-!
# Target types

The target types of a schema may be filled in ahead of time, or each while its class is built.
Filling them in overwrites whatever stood there and touches nothing else, and no layout looks at
them, so that both ways lead to the same header.
-/

namespace ProtoHeader

namespace Field

/-- The field without its target type. -/
def untyped (f : Field) : Field :=
  { f with targetType := none }

theorem untyped_annotate (f : Field) : f.annotate.untyped = f.untyped := rfl

end Field

/-- What a message declares itself, without the messages inside it and without target types. -/
def Message.outline (m : Message) : Message :=
  { m with fields := m.fields.map Field.untyped, messages := [] }

namespace Schema

def untyped (s : Schema) : Schema :=
  s.mapFields Field.untyped

theorem annotate_eq_revise (s : Schema) : s.annotate = s.revise { field := Field.annotate } :=
  s.mapFields_eq_revise Field.annotate

theorem untyped_eq_revise (s : Schema) : s.untyped = s.revise { field := Field.untyped } :=
  s.mapFields_eq_revise Field.untyped

theorem annotate_annotate (s : Schema) : s.annotate.annotate = s.annotate := by
  rw [annotate_eq_revise, annotate_eq_revise, revise_revise]
  rfl

theorem quiet_annotate : Revision.Quiet { field := Field.annotate } := by
  constructor <;> intro <;> rfl

theorem quiet_untyped : Revision.Quiet { field := Field.untyped } := by
  constructor <;> intro <;> rfl

theorem outline_annotate (s : Schema) (p : Position) :
    (s.annotate.messageAt? p).map Message.outline = (s.messageAt? p).map Message.outline := by
  rw [annotate_eq_revise, messageAt?_revise, Option.map_map]
  congr 1
  funext m
  simp [Message.outline, Function.comp_def, Field.untyped_annotate]

theorem targetType_of_mem_annotate {s : Schema} {p : Position} {f : Field}
    (h : f ∈ s.annotate.fieldsAt p) : f.targetType = some f.headerType := by
  rw [annotate_eq_revise, fieldsAt_revise] at h
  obtain ⟨g, -, rfl⟩ := List.mem_map.1 h
  rfl

/-- A field gets its target type when its class is built if it has none by then. -/
theorem header_annotate (s : Schema) (options : Header.Options) :
    s.annotate.header options = s.untyped.header options := by
  rw [annotate_eq_revise, untyped_eq_revise]
  apply header_revise_congr quiet_annotate quiet_untyped
  · intro f
    rfl
  · intro e
    rfl

/-- Filling in target types twice is filling them in once; only target types change, and each
becomes the type under which the header declares the field; and the header is the one built from
the schema with no target types at all. -/
theorem annotating_ahead_changes_no_header (s : Schema) :
    s.annotate.annotate = s.annotate ∧
    s.annotate = { s with messages := s.annotate.messages } ∧
    (∀ p, (s.annotate.messageAt? p).map Message.outline =
      (s.messageAt? p).map Message.outline) ∧
    (∀ p, ∀ f ∈ s.annotate.fieldsAt p, f.targetType = some f.headerType) ∧
    ∀ options : Header.Options,
      s.annotate.header options = s.untyped.header options ∧
      s.annotate.headerText options = s.untyped.headerText options ∧
      (CompilationUnit.protobuf s.annotate).headerText options =
        (CompilationUnit.protobuf s.untyped).headerText options := by
  refine ⟨s.annotate_annotate, rfl, s.outline_annotate, fun p f ↦ targetType_of_mem_annotate, ?_⟩
  intro options
  have htext : s.annotate.headerText options = s.untyped.headerText options := by
    rw [headerText, headerText, header_annotate]
  exact ⟨s.header_annotate options, htext, htext⟩

end Schema

end ProtoHeader

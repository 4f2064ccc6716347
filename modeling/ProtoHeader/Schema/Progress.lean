import ProtoHeader.Grammar.Statement
import ProtoHeader.Schema.Member

/-!
# Reading declarations line by line

The declarations of a schema are read one line at a time. `Progress` holds what has been read: the
finished top-level declarations, the messages that are still open, and an enumeration or a choice
group open inside the innermost of them. A line that nothing recognises leaves it as it is, and
the end of the lines closes whatever is open.
-/

namespace ProtoHeader

open Source

/-- A declaration that is open and holds no further declarations. -/
inductive Inner where
  | enum (decl : EnumDecl)
  | oneof (group : String)
  deriving DecidableEq, Repr

structure Progress where
  messages : List Message
  enums : List EnumDecl
  /-- The open messages, innermost first. -/
  opened : List Message
  /-- The enumeration or choice group open inside the innermost of them. -/
  inner : Option Inner
  deriving Repr

namespace Message

def addField (m : Message) (f : Field) : Message :=
  { m with fields := m.fields ++ [f] }

def addMessage (m : Message) (nested : Message) : Message :=
  { m with messages := m.messages ++ [nested] }

def addEnum (m : Message) (e : EnumDecl) : Message :=
  { m with enums := m.enums ++ [e] }

/-- The outermost of several open messages after all of them are closed, `m` first. -/
def closeInto (m : Message) : List Message → Message
  | [] => m
  | parent :: rest => (parent.addMessage m).closeInto rest

end Message

namespace Progress

def start : Progress :=
  ⟨[], [], [], none⟩

def addField (p : Progress) (f : Field) : Progress :=
  match p.opened with
  | [] => p
  | m :: rest => { p with opened := m.addField f :: rest }

/-- Adds an enumeration to the innermost open message, or to the top level. -/
def addEnum (p : Progress) (e : EnumDecl) : Progress :=
  match p.opened with
  | [] => { p with enums := p.enums ++ [e] }
  | m :: rest => { p with opened := m.addEnum e :: rest }

/-- Closes the innermost open message into the one around it, or into the top level. -/
def closeMessage (p : Progress) : Progress :=
  match p.opened with
  | [] => p
  | [m] => { p with messages := p.messages ++ [m], opened := [] }
  | m :: parent :: rest => { p with opened := parent.addMessage m :: rest }

def closeInner (p : Progress) : Progress :=
  match p.inner with
  | none => p
  | some (.enum decl) => { p with inner := none }.addEnum decl
  | some (.oneof _) => { p with inner := none }

def closeAll (p : Progress) : Progress :=
  let p := p.closeInner
  match p.opened with
  | [] => p
  | m :: rest => { p with messages := p.messages ++ [m.closeInto rest], opened := [] }

/-- Opens the declaration of the given kind that a line starts. -/
def openDecl (p : Progress) (kind : DeclKind) (l : Line) : Except Fault Progress :=
  match Grammar.declaredName? kind.keyword l.text.toList with
  | none => .error (.malformedDeclaration kind l.text l.number)
  | some name =>
    .ok <| match kind with
      | .message => { p with opened := ⟨name, l.number, [], [], []⟩ :: p.opened }
      | .enum => { p with inner := some (.enum ⟨name, l.number, []⟩) }
      | .oneof => { p with inner := some (.oneof name) }

/-- The kind of declaration that the first word of a line announces. -/
def declKind? (l : Line) : Option DeclKind :=
  [DeclKind.message, .enum, .oneof].find? (·.keyword == l.keyword)

/-- Reads a line at the top level. Only messages and enumerations are looked for. -/
def stepTop (p : Progress) (l : Line) : Except Fault Progress :=
  match declKind? l with
  | some .message => p.openDecl .message l
  | some .enum => p.openDecl .enum l
  | _ => .ok p

def stepMessage (p : Progress) (l : Line) : Except Fault Progress :=
  if l.closes then .ok p.closeMessage
  else match declKind? l with
    | some kind => p.openDecl kind l
    | none => do
      match ← Field.ofLine? l with
      | some f => return p.addField f
      | none => return p

def stepEnum (p : Progress) (decl : EnumDecl) (l : Line) : Except Fault Progress :=
  if l.closes then .ok p.closeInner
  else do
    match ← Enumerator.ofLine? l with
    | some v => return { p with inner := some (.enum { decl with values := decl.values ++ [v] }) }
    | none => return p

/-- Reads a line inside a choice group, whose fields belong to the message around it. -/
def stepOneof (p : Progress) (group : String) (l : Line) : Except Fault Progress :=
  if l.closes then .ok p.closeInner
  else do
    match ← Field.ofLine? l with
    | some f => return p.addField { f with oneof := some group }
    | none => return p

def step (p : Progress) (l : Line) : Except Fault Progress :=
  match p.inner, p.opened with
  | some (.enum decl), _ => p.stepEnum decl l
  | some (.oneof group), _ => p.stepOneof group l
  | none, [] => p.stepTop l
  | none, _ :: _ => p.stepMessage l

/-- Reads several lines, up to the first fault. -/
def steps (p : Progress) (lines : List Line) : Except Fault Progress :=
  lines.foldlM step p

theorem steps_append (p : Progress) (first second : List Line) :
    p.steps (first ++ second) = (p.steps first).bind (·.steps second) :=
  List.foldlM_append

theorem steps_nil (p : Progress) : p.steps [] = .ok p := rfl

theorem steps_cons {p q : Progress} {l : Line} (h : p.step l = .ok q) (lines : List Line) :
    p.steps (l :: lines) = q.steps lines := by
  rw [steps, List.foldlM_cons, h]
  rfl

theorem steps_append_of_ok {p q : Progress} {first : List Line} (h : p.steps first = .ok q)
    (second : List Line) : p.steps (first ++ second) = q.steps second := by
  rw [steps_append, h]
  rfl

end Progress

end ProtoHeader

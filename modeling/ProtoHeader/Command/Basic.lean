import ProtoHeader.Json.Dump

/-!
# Commands

A command reads one schema and either writes its header or prints a dump of it. It needs three
things from its surroundings, and whatever offers them can run it.
-/

namespace ProtoHeader

inductive Command where
  /-- Generate the header of a schema, into a file or onto the screen. -/
  | generate (input : String) (output guard : Option String) (model : DataModel)
  | parse (input : String)
  deriving DecidableEq, Repr

/-- What a command needs from its surroundings. -/
structure FileAccess (m : Type → Type) where
  /-- The text of the file at a path, if there is one. -/
  read : String → m (Option String)
  /-- Puts a text into the file at a path and tells whether that was possible. -/
  write : String → String → m Bool
  print : String → m Unit

namespace Command

/-- The schema of the file at a path. The path alone decides the schema language. -/
def load {m : Type → Type} [Monad m] (access : FileAccess m) (input : String) :
    ExceptT Fault m CompilationUnit := do
  let language ← ExceptT.mk (pure (Language.ofPath input))
  match ← access.read input with
  | none => throw (.inaccessible input)
  | some text => ExceptT.mk (pure (compileUnit text language))

/-- The stem of the include guard: the given one, or else the stem of the output file. -/
def guardStem (output guard : Option String) : Option String :=
  guard <|> output.bind Path.stem?

/-- Runs a command. Nothing is written or printed before everything that can fail has been done. -/
def run {m : Type → Type} [Monad m] (access : FileAccess m) : Command → ExceptT Fault m Unit
  | generate input output guard model => do
    let unit ← load access input
    let text := unit.headerText ⟨guardStem output guard, model⟩
    match output with
    | none => access.print text
    | some path =>
      unless ← access.write path text do
        throw (.inaccessible path)
  | parse input => do
    let unit ← load access input
    access.print unit.dump

end Command

end ProtoHeader

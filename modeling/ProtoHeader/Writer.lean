import ProtoHeader.Text.Lines

/-!
# Indented text

A text is written by a list of operations, which keep track of how deeply the next line is
indented. What they write depends only on the unit of indentation and the depth they start at.
-/

namespace ProtoHeader.Writer

inductive Op where
  | line (text : String)
  | blank
  | indent
  /-- Go one level back, but not beyond the margin. -/
  | dedent
  | fragment (text : String)
  /-- Write a line, the body one level deeper, and another line. -/
  | block (opening closing : String) (body : List Op)
  deriving Repr

/-- A line at the given depth. An empty line is not indented. -/
def indented (unit : String) (depth : Nat) (text : String) : String :=
  if text.isEmpty then "" else String.join (List.replicate depth unit) ++ text

mutual

/-- The lines that an operation writes from the given depth on, and the depth it ends at. -/
def Op.run (unit : String) (depth : Nat) : Op → List String × Nat
  | .line text => ([indented unit depth text], depth)
  | .blank => ([""], depth)
  | .indent => ([], depth + 1)
  | .dedent => ([], depth - 1)
  | .fragment text => ((Text.lines text).map (indented unit depth), depth)
  | .block opening closing body =>
    let (inside, reached) := run unit (depth + 1) body
    (indented unit depth opening :: inside ++ [indented unit (reached - 1) closing], reached - 1)

/-- The lines that several operations write one after the other, and the depth they end at. -/
def run (unit : String) (depth : Nat) : List Op → List String × Nat
  | [] => ([], depth)
  | op :: ops =>
    let (first, reached) := op.run unit depth
    let (rest, final) := run unit reached ops
    (first ++ rest, final)

end

/-- The text with the given lines. It ends with a line feed even if there are none. -/
def finish (lines : List String) : String :=
  "\n".intercalate lines ++ "\n"

/-- The unit of indentation where nothing else is asked for: four spaces. -/
def defaultUnit : String := "    "

def write (unit : String) (ops : List Op) : String :=
  finish (run unit 0 ops).1

theorem run_append (unit : String) (depth : Nat) (ops more : List Op) :
    run unit depth (ops ++ more) =
      ((run unit depth ops).1 ++ (run unit (run unit depth ops).2 more).1,
        (run unit (run unit depth ops).2 more).2) := by
  induction ops generalizing depth with
  | nil => simp [run]
  | cons op ops ih => simp [run, ih]

end ProtoHeader.Writer

import ProtoHeader.Grammar.Scan
import ProtoHeader.Text.DecimalDigit

/-!
# Members

The lines inside a declaration: a field of a message, such as `repeated Item items = 4;`, and an
enumerator, such as `RED = 0;`. These grammars say only how such a line is cut into parts; whether
a tag or a number has a value is decided later.
-/

namespace ProtoHeader.Grammar

open Text

inductive Label where
  | repeated
  | optional
  deriving DecidableEq, Repr

def Label.word : Label → String
  | .repeated => "repeated"
  | .optional => "optional"

structure FieldParts where
  label : Option Label
  typeName : List Char
  name : List Char
  digits : List Char
  deriving DecidableEq, Repr

structure EnumeratorParts where
  name : List Char
  value : List Char
  deriving DecidableEq, Repr

def isReferenceChar (c : Char) : Bool :=
  isWordChar c || c == '.'

/-- The text is a reference to a type: names with dots between them and perhaps one in front. -/
def isReference (cs : List Char) : Bool :=
  match cs.splitOn '.' with
  | [] :: names => !names.isEmpty && names.all isName
  | names => names.all isName

/-- What follows a bracketed list of options, or the text itself if it starts with none. -/
def afterOptions? : List Char → Option (List Char)
  | '[' :: cs =>
    match cs.dropWhile (· ≠ ']') with
    | [] => none
    | _ :: rest => some rest
  | cs => some cs

def unlabelled? (label : Option Label) (cs : List Char) : Option FieldParts := do
  let typeName := cs.takeWhile isReferenceChar
  guard (isReference typeName)
  let cs ← afterBlanks? (cs.dropWhile isReferenceChar)
  let (name, cs) ← name? cs
  let cs ← afterChar? '=' cs
  let digits := (skipBlanks cs).takeWhile isDecimalDigit
  guard !digits.isEmpty
  let cs ← afterOptions? (skipBlanks ((skipBlanks cs).dropWhile isDecimalDigit))
  let _ ← afterChar? ';' cs
  return ⟨label, typeName, name, digits⟩

def labelled? (label : Label) (cs : List Char) : Option FieldParts := do
  let cs ← after? label.word.toList cs
  let cs ← afterBlanks? cs
  unlabelled? (some label) cs

/-- The parts of a field's line. A word such as `optional` is a label if a type and a name follow
it, and otherwise the type. -/
def fieldParts? (cs : List Char) : Option FieldParts :=
  labelled? .repeated cs <|> labelled? .optional cs <|> unlabelled? none cs

/-- The parts of an enumerator's line. Its number runs up to a blank, a semicolon or a bracket. -/
def enumeratorParts? (cs : List Char) : Option EnumeratorParts := do
  let (name, cs) ← name? cs
  let cs ← afterChar? '=' cs
  let value := (skipBlanks cs).takeWhile fun c => !isBlank c && c != ';' && c != '['
  guard !value.isEmpty
  return ⟨name, value⟩

end ProtoHeader.Grammar

import ProtoHeader.Grammar.Scan

/-!
# Statements of a whole file

The lines that say something about the file itself: its language version, its package and the
files that it imports; and the names in the lines that open a declaration. A line may go on after
what these grammars read.
-/

namespace ProtoHeader.Grammar

open Text

inductive Version where
  | proto2
  | proto3
  /-- A line such as `edition = "2023";`. -/
  | edition (year : String)
  deriving DecidableEq, Repr

def Version.name : Version → String
  | .proto2 => "proto2"
  | .proto3 => "proto3"
  | .edition year => "edition " ++ year

/-- One of the two language versions that a `syntax` statement may name. -/
def numbered? (cs : List Char) : Option (Version × List Char) :=
  match after? "proto2".toList cs with
  | some rest => some (.proto2, rest)
  | none => (after? "proto3".toList cs).map (.proto3, ·)

def syntaxStatement? (cs : List Char) : Option Version := do
  let cs ← after? "syntax".toList cs
  let cs ← afterChar? '=' cs
  let cs ← afterQuote? (skipBlanks cs)
  let (version, cs) ← numbered? cs
  let cs ← afterQuote? cs
  let _ ← afterChar? ';' cs
  return version

def editionStatement? (cs : List Char) : Option Version := do
  let cs ← after? "edition".toList cs
  let cs ← afterChar? '=' cs
  let cs ← afterQuote? (skipBlanks cs)
  let year := cs.takeWhile (!isQuote ·)
  let cs ← afterQuote? (cs.dropWhile (!isQuote ·))
  let _ ← afterChar? ';' cs
  return .edition (String.ofList year)

def version? (cs : List Char) : Option Version :=
  syntaxStatement? cs <|> editionStatement? cs

/-- The name in a statement such as `package search.v1;`. -/
def package? (cs : List Char) : Option String := do
  let cs ← after? "package".toList cs
  let cs ← afterBlanks? cs
  let start ← cs.head?
  guard (isNameStart start)
  let inName := fun c => isWordChar c || c == '.'
  let _ ← afterChar? ';' (cs.dropWhile inName)
  return String.ofList (cs.takeWhile inName)

/-- What follows the modifier of an import, or the text itself if there is none. -/
def afterModifier (cs : List Char) : List Char :=
  let afterWord? := fun word => (after? word cs).bind afterBlanks?
  (afterWord? "public".toList <|> afterWord? "weak".toList).getD cs

/-- The path in a statement such as `import "other.proto";`. -/
def import? (cs : List Char) : Option String := do
  let cs ← after? "import".toList cs
  let cs ← afterBlanks? cs
  let cs ← afterQuote? (afterModifier cs)
  let path := cs.takeWhile (!isQuote ·)
  guard !path.isEmpty
  let cs ← afterQuote? (cs.dropWhile (!isQuote ·))
  let _ ← afterChar? ';' cs
  return String.ofList path

/-- The name that follows the given keyword at the start of a line. -/
def declaredName? (keyword : String) (cs : List Char) : Option String := do
  let cs ← after? keyword.toList cs
  let cs ← afterBlanks? cs
  let (name, _) ← name? cs
  return String.ofList name

end ProtoHeader.Grammar

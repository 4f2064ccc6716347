import ProtoHeader.Text.Blank
import ProtoHeader.Text.WordChar

/-!
# Scanning

The pieces from which the line grammars are put together. Each scanner takes the characters that
are left of a line and gives what it read with the rest, or nothing. All of them read as far as
they can, which loses no reading: no blank is a word character, and no grammar lets a piece be
followed by something that could have belonged to it.
-/

namespace ProtoHeader.Grammar

open Text

/-- What follows the given word at the start of a text. -/
def after? : List Char → List Char → Option (List Char)
  | [], cs => some cs
  | _ :: _, [] => none
  | w :: ws, c :: cs => if w = c then after? ws cs else none

/-- What follows one or more blanks. -/
def afterBlanks? : List Char → Option (List Char)
  | [] => none
  | c :: cs => if isBlank c then some (skipBlanks cs) else none

/-- What follows a character at the start of a text, possibly after blanks. -/
def afterChar? (mark : Char) (cs : List Char) : Option (List Char) :=
  match skipBlanks cs with
  | [] => none
  | c :: rest => if c = mark then some rest else none

/-- Either quote may open or close a quoted part, whatever the other end has. -/
def isQuote (c : Char) : Bool :=
  c == '"' || c == '\''

def afterQuote? : List Char → Option (List Char)
  | [] => none
  | c :: cs => if isQuote c then some cs else none

/-- A name: an ASCII letter or an underscore, then word characters. -/
def name? : List Char → Option (List Char × List Char)
  | [] => none
  | c :: cs =>
    if isNameStart c then some (c :: cs.takeWhile isWordChar, cs.dropWhile isWordChar) else none

def isName : List Char → Bool
  | [] => false
  | c :: cs => isNameStart c && cs.all isWordChar

theorem after?_eq_some_iff {word cs rest : List Char} :
    after? word cs = some rest ↔ cs = word ++ rest := by
  induction word generalizing cs with
  | nil => simp [after?, eq_comm]
  | cons w ws ih =>
    cases cs with
    | nil => simp [after?]
    | cons c cs =>
      by_cases h : w = c
      · simp [after?, h, ih]
      · simp [after?, h, Ne.symm h]

theorem append_of_name? {cs name rest : List Char} (h : name? cs = some (name, rest)) :
    name ++ rest = cs := by
  cases cs with
  | nil => simp [name?] at h
  | cons c cs =>
    simp only [name?, Option.ite_none_right_eq_some, Option.some.injEq, Prod.mk.injEq] at h
    obtain ⟨_, rfl, rfl⟩ := h
    simp [List.takeWhile_append_dropWhile]

theorem isName_of_name? {cs name rest : List Char} (h : name? cs = some (name, rest)) :
    isName name = true := by
  cases cs with
  | nil => simp [name?] at h
  | cons c cs =>
    simp only [name?, Option.ite_none_right_eq_some, Option.some.injEq, Prod.mk.injEq] at h
    obtain ⟨start, rfl, rfl⟩ := h
    simp [isName, start]

end ProtoHeader.Grammar

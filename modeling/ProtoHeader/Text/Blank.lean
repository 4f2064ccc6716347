import ProtoHeader.Text.CharRange

/-!
# Blanks

The blanks are the characters with the Unicode property `White_Space`, line breaks included.
-/

namespace ProtoHeader.Text

/-- The ranges of the property `White_Space`. -/
def blankRanges : List CharRange :=
  [⟨0x9, 0xD⟩, ⟨0x20, 0x20⟩, ⟨0x85, 0x85⟩, ⟨0xA0, 0xA0⟩, ⟨0x1680, 0x1680⟩, ⟨0x2000, 0x200A⟩,
   ⟨0x2028, 0x2029⟩, ⟨0x202F, 0x202F⟩, ⟨0x205F, 0x205F⟩, ⟨0x3000, 0x3000⟩]

def isBlank (c : Char) : Bool :=
  inRanges blankRanges c

def skipBlanks (cs : List Char) : List Char :=
  cs.dropWhile isBlank

def trim (cs : List Char) : List Char :=
  (skipBlanks (skipBlanks cs).reverse).reverse

/-- The first run of characters that are not blank, empty if there is none. -/
def firstWord (cs : List Char) : List Char :=
  (skipBlanks cs).takeWhile (!isBlank ·)

end ProtoHeader.Text

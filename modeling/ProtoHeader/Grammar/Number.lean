/-!
# Numbers

Tags are decimal numbers from one to the largest of 32 bits. The number of an enumerator is a
signed integer of 32 bits, in decimal or, after `0x` or `0X`, in hexadecimal. Digits are ASCII, and
any number of zeros may stand in front.
-/

namespace ProtoHeader.Grammar

/-- The value of an ASCII digit or letter as a hexadecimal digit. -/
def hexDigit? (c : Char) : Option Nat :=
  if '0' ≤ c ∧ c ≤ '9' then some (c.toNat - '0'.toNat)
  else if 'a' ≤ c ∧ c ≤ 'f' then some (c.toNat - 'a'.toNat + 10)
  else if 'A' ≤ c ∧ c ≤ 'F' then some (c.toNat - 'A'.toNat + 10)
  else none

/-- The value of a digit in the given base, which is at most sixteen. -/
def digit? (base : Nat) (c : Char) : Option Nat :=
  (hexDigit? c).filter (· < base)

/-- The number that one or more digits denote in the given base. -/
def natural? (base : Nat) : List Char → Option Nat
  | [] => none
  | cs => cs.foldlM (fun n c => (digit? base c).map (n * base + ·)) 0

def tag? (digits : List Char) : Option Nat :=
  (natural? 10 digits).filter fun n => 0 < n && n < 0x100000000

def magnitude? : List Char → Option Nat
  | '0' :: 'x' :: digits => natural? 16 digits
  | '0' :: 'X' :: digits => natural? 16 digits
  | digits => natural? 10 digits

/-- The integer that a text with an optional minus sign denotes. -/
def signed? : List Char → Option Int
  | '-' :: cs => (magnitude? cs).map fun n => -(n : Int)
  | cs => (magnitude? cs).map fun n => (n : Int)

def enumNumber? (cs : List Char) : Option Int :=
  (signed? cs).filter fun v => -0x80000000 ≤ v && v < 0x80000000

end ProtoHeader.Grammar

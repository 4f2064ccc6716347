import ProtoHeader.Layout.Record
import ProtoHeader.Scalar

/-!
# Data models

The sizes and alignments that generated code can count on.
-/

namespace ProtoHeader

/-- The width of pointers on the target, which decides the library types as well. -/
inductive DataModel where
  | lp64
  | ilp32
  deriving DecidableEq, Repr, Inhabited

namespace DataModel

def name : DataModel → String
  | lp64 => "LP64"
  | ilp32 => "ILP32"

def pointer : DataModel → Extent
  | lp64 => ⟨8, 8⟩
  | ilp32 => ⟨4, 4⟩

/-- A character string: a pointer, a length and a buffer of sixteen bytes. -/
def string : DataModel → Extent
  | lp64 => ⟨32, 8⟩
  | ilp32 => ⟨24, 4⟩

/-- A growing array: three pointers, whatever it holds. -/
def vector (model : DataModel) : Extent :=
  ⟨3 * model.pointer.size, model.pointer.align⟩

/-- An enumeration is stored as an integer of 32 bits. -/
def enumeration : DataModel → Extent
  | _ => ⟨4, 4⟩

/-- A scalar type. Numbers are aligned to their own size. -/
def scalar (model : DataModel) (t : Scalar) : Extent :=
  match t, t.bits? with
  | .string, _ => model.string
  | .bytes, _ => model.vector
  | _, some bits => ⟨bits / 8, bits / 8⟩
  | _, none => ⟨1, 1⟩

end DataModel

end ProtoHeader

import ProtoHeader.Fault
import ProtoHeader.Grammar.Member
import ProtoHeader.Grammar.Number
import ProtoHeader.Schema.Basic
import ProtoHeader.Source.Line

/-!
# Members read from lines

A line inside a message or an enumeration either declares a member, or says nothing that is
recognised, or declares a member whose number cannot be taken.
-/

namespace ProtoHeader

open Source

def Field.ofLine? (l : Line) : Except Fault (Option Field) :=
  match Grammar.fieldParts? l.text.toList with
  | none => .ok none
  | some parts =>
    match Grammar.tag? parts.digits with
    | none =>
      .error (.malformedFieldTag (String.ofList parts.name) (String.ofList parts.digits) l.number)
    | some tag =>
      .ok (some (.declare (String.ofList parts.typeName) (String.ofList parts.name) tag
        (parts.label == some .repeated) l.number))

def Enumerator.ofLine? (l : Line) : Except Fault (Option Enumerator) :=
  match Grammar.enumeratorParts? l.text.toList with
  | none => .ok none
  | some parts =>
    match Grammar.enumNumber? parts.value with
    | none =>
      .error (.malformedEnumValue (String.ofList parts.name) (String.ofList parts.value) l.number)
    | some value => .ok (some ⟨String.ofList parts.name, value, l.number⟩)

end ProtoHeader

import Mathlib.Logic.Function.Basic
import ProtoHeader.Json.Dump
import ProtoHeader.Proofs.JsonReader
import ProtoHeader.Proofs.WholeOrNothing

/-!
# Reading dumps

A dump loses nothing.  A compilation unit is read back from the JSON text of its dump, member by
member and by key, where a choice group or a target type that is not there is none.  So different
units have different dumps.
-/

namespace ProtoHeader

/-! ## Values of members -/

namespace Json

def asString? : Json → Option String
  | .string s => some s
  | _ => none

def asInteger? : Json → Option Int
  | .number n => some n
  | _ => none

def asNatural? (v : Json) : Option Nat :=
  v.asInteger?.bind Int.toNat?

def asBool? : Json → Option Bool
  | .bool b => some b
  | _ => none

def asList? {α : Type} (decode : Json → Option α) : Json → Option (List α)
  | .array vs => vs.mapM decode
  | _ => none

/-- The value of the first member with a key, which has to be there. -/
def required? {α : Type} (members : List (String × Json)) (key : String)
    (decode : Json → Option α) : Option α :=
  (members.lookup key).bind decode

/-- The value of the first member with a key, if there is one. -/
def optional? {α : Type} (members : List (String × Json)) (key : String)
    (decode : Json → Option α) : Option (Option α) :=
  match members.lookup key with
  | none => some none
  | some v => (decode v).map some

end Json

/-! ## Declarations -/

open Json

def Field.ofJson? : Json → Option Field
  | .object members => do
    return {
      typeName := ← required? members "type_name" asString?
      name := ← required? members "name" asString?
      tag := ← required? members "tag" asNatural?
      line := ← required? members "line" asNatural?
      isScalar := ← required? members "is_base_type" asBool?
      isRepeated := ← required? members "is_repeated" asBool?
      oneof := ← optional? members "oneof" asString?
      targetType := ← optional? members "target_type" asString? }
  | _ => none

def Enumerator.ofJson? : Json → Option Enumerator
  | .object members => do
    return {
      name := ← required? members "name" asString?
      value := ← required? members "value" asInteger?
      line := ← required? members "line" asNatural? }
  | _ => none

def EnumDecl.ofJson? : Json → Option EnumDecl
  | .object members => do
    return {
      name := ← required? members "name" asString?
      line := ← required? members "line" asNatural?
      values := ← required? members "values" (asList? Enumerator.ofJson?) }
  | _ => none

namespace Message

mutual

def ofJson? : Json → Option Message
  | .object members => do
    return {
      name := ← required? members "name" asString?
      line := ← required? members "line" asNatural?
      fields := ← required? members "fields" (asList? Field.ofJson?)
      messages := ← nested? members
      enums := ← required? members "nested_enums" (asList? EnumDecl.ofJson?) }
  | _ => none

/-- The messages of the first member with the key of nested messages. -/
def nested? : List (String × Json) → Option (List Message)
  | [] => none
  | (key, v) :: members => if key = "nested_messages" then listOfJson? v else nested? members

def listOfJson? : Json → Option (List Message)
  | .array vs => allOfJson? vs
  | _ => none

def allOfJson? : List Json → Option (List Message)
  | [] => some []
  | v :: vs => do return (← ofJson? v) :: (← allOfJson? vs)

end

end Message

def Schema.ofMembers? (members : List (String × Json)) : Option Schema := do
  return {
    syntaxVersion := ← required? members "syntax" asString?
    package := ← required? members "package" asString?
    imports := ← required? members "imports" (asList? asString?)
    messages := ← required? members "messages" Message.listOfJson?
    enums := ← required? members "enums" (asList? EnumDecl.ofJson?) }

namespace CompilationUnit

def ofJson? : Json → Option CompilationUnit
  | .object members => do
    if (← required? members "kind" asString?) = "protobuf" then
      return .protobuf (← Schema.ofMembers? members)
    else none
  | _ => none

/-- The unit that a JSON text describes. -/
def read? (text : String) : Option CompilationUnit :=
  (Json.read? text).bind ofJson?

end CompilationUnit

/-! ## Reading back -/

namespace Json

variable {α : Type}

@[simp] theorem asString?_string (s : String) : asString? (.string s) = some s :=
  rfl

@[simp] theorem asInteger?_number (n : ℤ) : asInteger? (.number n) = some n :=
  rfl

@[simp] theorem asNatural?_natural (n : ℕ) : asNatural? (natural n) = some n :=
  rfl

@[simp] theorem asBool?_bool (b : Bool) : asBool? (.bool b) = some b :=
  rfl

theorem asList?_map {encode : α → Json} {decode : Json → Option α}
    (h : ∀ x, decode (encode x) = some x) (xs : List α) :
    asList? decode (.array (xs.map encode)) = some xs := by
  rw [asList?]
  induction xs with
  | nil => rfl
  | cons x xs ih => simp [h, ih]

@[simp] theorem required?_cons (key name : String) (v : Json) (members : List (String × Json))
    (decode : Json → Option α) :
    required? ((name, v) :: members) key decode =
      if key = name then decode v else required? members key decode := by
  by_cases h : key = name
  · simp [required?, h]
  · simp [required?, List.lookup_cons, beq_false_of_ne h, h]

@[simp] theorem optional?_nil (key : String) (decode : Json → Option α) :
    optional? [] key decode = some none :=
  rfl

@[simp] theorem optional?_cons (key name : String) (v : Json) (members : List (String × Json))
    (decode : Json → Option α) :
    optional? ((name, v) :: members) key decode =
      if key = name then (decode v).map some else optional? members key decode := by
  by_cases h : key = name
  · simp [optional?, h]
  · simp [optional?, List.lookup_cons, beq_false_of_ne h, h]

end Json

theorem Field.ofJson?_toJson (f : Field) : Field.ofJson? f.toJson = some f := by
  obtain ⟨typeName, name, tag, line, isScalar, isRepeated, oneof, targetType⟩ := f
  cases oneof <;> cases targetType <;> simp [toJson, ofJson?, Json.optional]

theorem Enumerator.ofJson?_toJson (v : Enumerator) : Enumerator.ofJson? v.toJson = some v := by
  simp [toJson, ofJson?]

theorem EnumDecl.ofJson?_toJson (e : EnumDecl) : EnumDecl.ofJson? e.toJson = some e := by
  simp [toJson, ofJson?, asList?_map Enumerator.ofJson?_toJson]

namespace Message

mutual

theorem ofJson?_toJson (m : Message) : ofJson? m.toJson = some m :=
  match m with
  | ⟨name, line, fields, messages, enums⟩ => by
      simp [toJson, ofJson?, nested?, listOfJson?, allOfJson?_toJsonAll messages,
        asList?_map Field.ofJson?_toJson, asList?_map EnumDecl.ofJson?_toJson]

theorem allOfJson?_toJsonAll (ms : List Message) : allOfJson? (toJsonAll ms) = some ms :=
  match ms with
  | [] => rfl
  | m :: ms => by
      simp [toJsonAll, allOfJson?, ofJson?_toJson m, allOfJson?_toJsonAll ms]

end

end Message

theorem Schema.ofMembers?_jsonMembers (s : Schema) (kind : Json) :
    Schema.ofMembers? (("kind", kind) :: s.jsonMembers) = some s := by
  simp [jsonMembers, ofMembers?, Message.listOfJson?, Message.allOfJson?_toJsonAll,
    asList?_map asString?_string, asList?_map EnumDecl.ofJson?_toJson]

namespace CompilationUnit

theorem ofJson?_toJson (u : CompilationUnit) : ofJson? u.toJson = some u := by
  cases u with
  | protobuf s => simp [toJson, ofJson?, Schema.ofMembers?_jsonMembers, Language.name]

theorem read?_dump (u : CompilationUnit) : read? u.dump = some u := by
  rw [read?, dump, read?_pretty]
  exact ofJson?_toJson u

/-- Every unit is read back from its dump, so that different units have different dumps; and what
the command that parses a file prints is read back as the unit of this file. -/
theorem dumps_lose_nothing :
    (∀ u, read? u.dump = some u) ∧ Function.Injective dump ∧
    ∀ (σ Place : Type) [DecidableEq Place] (w : Surroundings σ Place) (s : σ) (input : String)
      (u : CompilationUnit), w.loaded s input = .ok u →
      (w.run s (.parse input)).1 = .ok () ∧
        ∃ text, w.printed (w.run s (.parse input)).2 = w.printed s ++ text ∧
          read? text = some u := by
  refine ⟨read?_dump, ?_, ?_⟩
  · intro u v h
    have hu := read?_dump u
    rw [h, read?_dump] at hu
    exact (Option.some.inj hu).symm
  · intro σ Place _ w s input u hload
    rw [w.run_parse s hload]
    exact ⟨rfl, u.dump, w.printed_print s u.dump, read?_dump u⟩

theorem dumps_lose_nothing_ping :
    ∃ u, Shell.surroundings.loaded Shell.ping "ping.proto" = .ok u ∧
      ∃ text, Shell.surroundings.printed
          (Shell.surroundings.run Shell.ping (.parse "ping.proto")).2 =
          Shell.surroundings.printed Shell.ping ++ text ∧
        read? text = some u := by
  have hisOk : (Shell.surroundings.loaded Shell.ping "ping.proto").isOk = true := by
    decide +kernel
  obtain ⟨u, hload⟩ := Shell.exists_eq_ok_of_isOk hisOk
  obtain ⟨-, -, hprinted⟩ := dumps_lose_nothing
  exact ⟨u, hload, (hprinted _ _ Shell.surroundings Shell.ping "ping.proto" u hload).2⟩

end CompilationUnit

end ProtoHeader

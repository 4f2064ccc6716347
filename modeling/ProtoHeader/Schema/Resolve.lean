import ProtoHeader.Schema.Position
import ProtoHeader.Text.Segments

/-!
# Resolution of type references

A reference is looked up from the scope it stands in outwards, and last at the top level; its
further segments lead into what the first one names. A leading dot starts at the top level. A
reference that names nothing this way may spell out the package in front.

Scopes are listed innermost first. Main statement: `mem_positions_of_resolve?`, a message that a
reference resolves to stands in the schema.
-/

namespace ProtoHeader

inductive Declaration where
  /-- The message at a position, which was found inside the given scopes. -/
  | message (enclosing : List Position) (position : Position)
  | enum
  deriving DecidableEq, Repr

namespace Schema

/-- What a name declares directly in the scope at the head of the list, or at the top level if the
list is empty. Of a message and an enumeration of one name, the message counts. -/
def declared? (s : Schema) (scopes : List Position) (name : String) : Option Declaration :=
  let place := scopes.head?.getD []
  match s.scopeAt? place with
  | none => none
  | some scope =>
    match scope.messages.findIdx? (·.name == name) with
    | some i => some (.message scopes (place ++ [i]))
    | none => if scope.enums.any (·.name == name) then some .enum else none

/-- What a name means in the innermost of the scopes that declares it, or at the top level. -/
def visible? (s : Schema) (name : String) : List Position → Option Declaration
  | [] => s.declared? [] name
  | scope :: outer => s.declared? (scope :: outer) name <|> s.visible? name outer

/-- What a name means inside a declaration. Nothing is declared inside an enumeration. -/
def member? (s : Schema) (d : Declaration) (name : String) : Option Declaration :=
  match d with
  | .message enclosing position => s.declared? (position :: enclosing) name
  | .enum => none

def lookup? (s : Schema) (scopes : List Position) : List String → Option Declaration
  | [] => none
  | first :: rest => do rest.foldlM s.member? (← s.visible? first scopes)

def resolve? (s : Schema) (scopes : List Position) (typeName : String) : Option Declaration :=
  let absolute := typeName.toList.head? == some '.'
  let names := Text.segments (Text.dropLeadingDots typeName)
  let package := Text.segments s.package
  s.lookup? (if absolute then [] else scopes) names <|>
    if package.length < names.length ∧ names.take package.length = package then
      s.lookup? [] (names.drop package.length)
    else none

theorem mem_positions_of_declared? {s : Schema} {scopes enclosing : List Position} {name : String}
    {position : Position} (h : s.declared? scopes name = some (.message enclosing position)) :
    position ∈ s.positions := by
  simp only [declared?] at h
  split at h
  · contradiction
  · next scope hscope =>
    split at h
    · next i hi =>
      obtain ⟨-, rfl⟩ := Declaration.message.inj (Option.some.inj h)
      obtain ⟨bound, -⟩ := List.findIdx?_eq_some_iff_findIdx_eq.1 hi
      rw [mem_positions_iff, messageAt?_concat hscope, List.getElem?_eq_getElem bound]
      rfl
    · split at h <;> simp at h

theorem mem_positions_of_visible? {s : Schema} {scopes enclosing : List Position} {name : String}
    {position : Position} (h : s.visible? name scopes = some (.message enclosing position)) :
    position ∈ s.positions := by
  induction scopes with
  | nil => exact mem_positions_of_declared? h
  | cons scope outer ih =>
    rw [visible?, Option.orElse_eq_orElse, Option.orElse_eq_or, Option.or_eq_some_iff] at h
    rcases h with h | ⟨-, h⟩
    · exact mem_positions_of_declared? h
    · exact ih h

theorem mem_positions_of_lookup? {s : Schema} {scopes enclosing : List Position}
    {names : List String} {position : Position}
    (h : s.lookup? scopes names = some (.message enclosing position)) :
    position ∈ s.positions := by
  cases names with
  | nil => simp [lookup?] at h
  | cons first rest =>
    obtain ⟨d, hd, h⟩ := Option.bind_eq_some_iff.1 h
    have descend : ∀ (rest : List String) (d : Declaration),
        (∀ e p, d = .message e p → p ∈ s.positions) →
        rest.foldlM s.member? d = some (.message enclosing position) → position ∈ s.positions := by
      intro rest
      induction rest with
      | nil =>
        intro d known h
        exact known _ _ (Option.some.inj h)
      | cons name rest ih =>
        intro d known h
        rw [List.foldlM_cons] at h
        obtain ⟨d', hd', h⟩ := Option.bind_eq_some_iff.1 h
        refine ih d' ?_ h
        rintro e p rfl
        cases d with
        | message e' p' => exact mem_positions_of_declared? hd'
        | enum => simp [member?] at hd'
    refine descend rest d ?_ h
    rintro e p rfl
    exact mem_positions_of_visible? hd

theorem mem_positions_of_resolve? {s : Schema} {scopes enclosing : List Position}
    {typeName : String} {position : Position}
    (h : s.resolve? scopes typeName = some (.message enclosing position)) :
    position ∈ s.positions := by
  simp only [resolve?, Option.orElse_eq_orElse, Option.orElse_eq_or, Option.or_eq_some_iff] at h
  rcases h with h | ⟨-, h⟩
  · exact mem_positions_of_lookup? h
  · split at h
    · exact mem_positions_of_lookup? h
    · contradiction

end Schema

end ProtoHeader

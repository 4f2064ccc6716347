import ProtoHeader.Proofs.LegalNames

/-!
# Collisions of escaped names

Escaping leaves the names that are not reserved as they are, so that two names may become one: a
reserved word and the same word with an underscore after it.  There are no other collisions, neither
of names nor of references, since a scoped name can be cut into its segments again.

Main statement: `names_collide_only_with_escaped`.
-/

namespace ProtoHeader.Header

open Text

instance (a b : String) : Decidable (Collide a b) :=
  inferInstanceAs
    (Decidable (a = b ∨ (a ∈ reservedWords ∧ b = a ++ "_") ∨ (b ∈ reservedWords ∧ a = b ++ "_")))

/-- The segment can stand in a reference: it is a name, or empty as in front of a leading dot. -/
def IsSegment (segment : String) : Prop :=
  segment = "" ∨ Grammar.isName segment.toList = true

instance (segment : String) : Decidable (IsSegment segment) :=
  inferInstanceAs (Decidable (segment = "" ∨ Grammar.isName segment.toList = true))

theorem IsSegment.colon_notMem {segment : String} (h : IsSegment segment) :
    ':' ∉ segment.toList := by
  rcases h with rfl | hname
  · simp
  · exact colon_notMem_of_isName hname

theorem scopedName_eq_iff_map_eq {x y : String}
    (hx : ∀ segment ∈ segments x, ':' ∉ segment.toList)
    (hy : ∀ segment ∈ segments y, ':' ∉ segment.toList) :
    scopedName x = scopedName y ↔ (segments x).map safeName = (segments y).map safeName := by
  constructor
  · intro h
    rw [← scopeSegments_scopedName hx, h, scopeSegments_scopedName hy]
  · intro h
    rw [scopedName, scopedName, h]

theorem map_safeName_eq_iff {names names' : List String} :
    names.map safeName = names'.map safeName ↔ List.Forall₂ Collide names names' := by
  rw [← List.forall₂_eq_eq_eq, List.forall₂_map_left_iff, List.forall₂_map_right_iff]
  simp only [safeName_eq_safeName_iff]

/-- No escaped name is reserved, and escaping it again changes nothing.  Two names are escaped alike
only if they are the same or one is the other, a reserved word, escaped, and two references only if
their segments are so, one by one. -/
theorem names_collide_only_with_escaped :
    (∀ name, safeName name ∉ reservedWords) ∧
    (∀ name, safeName (safeName name) = safeName name) ∧
    (∀ a b, safeName a = safeName b ↔ Collide a b) ∧
    ∀ x y, (∀ segment ∈ segments x, IsSegment segment) →
      (∀ segment ∈ segments y, IsSegment segment) →
      (scopedName x = scopedName y ↔ List.Forall₂ Collide (segments x) (segments y)) := by
  refine ⟨safeName_notMem, safeName_safeName, fun a b ↦ safeName_eq_safeName_iff, ?_⟩
  intro x y hx hy
  have hsame := scopedName_eq_iff_map_eq (fun segment h ↦ (hx segment h).colon_notMem)
    (fun segment h ↦ (hy segment h).colon_notMem)
  exact hsame.trans map_safeName_eq_iff

theorem names_collide_only_with_escaped_class :
    (∀ segment ∈ segments ".geo.class.Point", IsSegment segment) ∧
      (∀ segment ∈ segments ".geo.class_.Point", IsSegment segment) ∧
      (∀ segment ∈ segments "geo.class.Point", IsSegment segment) ∧
      scopedName ".geo.class.Point" = scopedName ".geo.class_.Point" ∧
      scopedName ".geo.class.Point" ≠ scopedName "geo.class.Point" := by
  have hword : ∀ segment ∈ segments ".geo.class.Point", IsSegment segment := by decide +kernel
  have hescaped : ∀ segment ∈ segments ".geo.class_.Point", IsSegment segment := by decide +kernel
  have hrelative : ∀ segment ∈ segments "geo.class.Point", IsSegment segment := by decide +kernel
  obtain ⟨-, -, -, hiff⟩ := names_collide_only_with_escaped
  refine ⟨hword, hescaped, hrelative, (hiff _ _ hword hescaped).mpr ?_, ?_⟩
  · decide +kernel
  · rw [ne_eq, hiff _ _ hword hrelative]
    intro hall
    exact absurd hall.length_eq (by decide +kernel)

end ProtoHeader.Header

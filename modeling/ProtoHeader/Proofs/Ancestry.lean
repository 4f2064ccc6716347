import Mathlib.Data.List.Induction
import ProtoHeader.Layout.Storage

/-!
# Declarations and their ancestors

A reference that stands in a message is looked up from the chain of that message and its
ancestors.  What it finds is again a declaration together with all its ancestors, so that a walk
along references which starts at a message with its true ancestors never loses them.
-/

namespace ProtoHeader

namespace Position

/-- The scopes that are open inside the message at `p`, innermost first. -/
def scopes (p : Position) : List Position :=
  if p = [] then [] else p :: p.ancestors

@[simp] theorem scopes_nil : scopes [] = [] := rfl

theorem scopes_of_ne_nil {p : Position} (h : p ≠ []) : p.scopes = p :: p.ancestors := by
  simp [scopes, h]

theorem ancestors_append_singleton (p : Position) (i : ℕ) : ancestors (p ++ [i]) = p.scopes := by
  by_cases hp : p = []
  · subst p
    rfl
  · rw [ancestors_concat p i hp, scopes_of_ne_nil hp]

theorem scopes_append_singleton (p : Position) (i : ℕ) :
    scopes (p ++ [i]) = (p ++ [i]) :: p.scopes := by
  rw [scopes_of_ne_nil (by simp), ancestors_append_singleton]

@[simp] theorem head?_scopes (p : Position) : p.scopes.head?.getD [] = p := by
  by_cases hp : p = []
  · simp [hp]
  · simp [scopes_of_ne_nil hp]

end Position

/-- A message is named together with its true ancestors. -/
def Declaration.Anchored : Declaration → Prop
  | .message enclosing p => p ≠ [] ∧ enclosing = p.ancestors
  | .enum => True

namespace Schema

variable {s : Schema} {p : Position} {d : Declaration}

theorem anchored_of_declared? {name : String}
    (h : s.declared? p.scopes name = some d) : d.Anchored := by
  simp only [declared?, Position.head?_scopes] at h
  split at h
  · contradiction
  · split at h
    · obtain rfl := Option.some.inj h
      exact ⟨by simp, (Position.ancestors_append_singleton p _).symm⟩
    · split at h
      · obtain rfl := Option.some.inj h
        trivial
      · contradiction

theorem anchored_of_visible? {name : String}
    (h : s.visible? name p.scopes = some d) : d.Anchored := by
  induction p using List.reverseRecOn with
  | nil => exact anchored_of_declared? (p := []) h
  | append_singleton p i ih =>
      rw [Position.scopes_append_singleton, visible?, Option.orElse_eq_orElse,
        Option.orElse_eq_or, Option.or_eq_some_iff] at h
      rcases h with h | ⟨-, h⟩
      · rw [← Position.scopes_append_singleton] at h
        exact anchored_of_declared? h
      · exact ih h

theorem anchored_of_member? {name : String} {d' : Declaration}
    (hd : d.Anchored) (h : s.member? d name = some d') : d'.Anchored := by
  cases d with
  | message enclosing q =>
      obtain ⟨hq, rfl⟩ := hd
      rw [member?, ← Position.scopes_of_ne_nil hq] at h
      exact anchored_of_declared? h
  | enum => simp [member?] at h

theorem anchored_of_foldlM {names : List String} {d' : Declaration}
    (hd : d.Anchored) (h : names.foldlM s.member? d = some d') : d'.Anchored := by
  induction names generalizing d with
  | nil =>
      obtain rfl := Option.some.inj h
      exact hd
  | cons name names ih =>
      rw [List.foldlM_cons] at h
      obtain ⟨d₁, hd₁, h⟩ := Option.bind_eq_some_iff.mp h
      exact ih (anchored_of_member? hd hd₁) h

theorem anchored_of_lookup? {names : List String}
    (h : s.lookup? p.scopes names = some d) : d.Anchored := by
  cases names with
  | nil => simp [lookup?] at h
  | cons first rest =>
      obtain ⟨d₁, hd₁, h⟩ := Option.bind_eq_some_iff.mp h
      exact anchored_of_foldlM (anchored_of_visible? hd₁) h

/-- Looking up a reference from a message and its true ancestors never loses an ancestor. -/
theorem anchored_of_resolve? {typeName : String}
    (h : s.resolve? p.scopes typeName = some d) : d.Anchored := by
  have htop : ∀ names, s.lookup? [] names = some d → d.Anchored := fun names hn ↦
    anchored_of_lookup? (p := []) hn
  simp only [resolve?, Option.orElse_eq_orElse, Option.orElse_eq_or, Option.or_eq_some_iff] at h
  rcases h with h | ⟨-, h⟩
  · split at h
    · exact htop _ h
    · exact anchored_of_lookup? h
  · split at h
    · exact htop _ h
    · contradiction

theorem storage_eq_embedded_iff {model : DataModel} {f : Field} {scopes enclosing : List Position}
    {q : Position} :
    s.storage model scopes f = .embedded enclosing q ↔
      f.isRepeated = false ∧ f.scalar? = none ∧
        s.resolve? scopes f.typeName = some (.message enclosing q) := by
  unfold storage
  split
  · next hrep => simp [hrep]
  · next hrep =>
      split
      · next hscalar => simp [hscalar]
      · next hscalar =>
          split <;> next hresolve => simp [hrep, hscalar, hresolve]

theorem anchored_of_storage {model : DataModel} {f : Field} {enclosing : List Position}
    {q : Position} (h : s.storage model p.scopes f = .embedded enclosing q) :
    enclosing = q.ancestors := by
  obtain ⟨-, -, hresolve⟩ := storage_eq_embedded_iff.mp h
  exact (anchored_of_resolve? hresolve).2

end Schema

end ProtoHeader

import ProtoHeader.Proofs.QualifiedNames

/-!
# Bound names

The first segment of a reference is bound in the innermost of the open scopes that declares it, and
at the top level if none of them does.  The other segments lead on from there, and no scope further
out is tried if they lead nowhere.  A reference that means nothing in this way is read again without
the package in front.  A message that is found either way stands in the schema, and it is given
together with all the messages around it.

Main statement: `resolve?_binds_innermost`.
-/

namespace ProtoHeader

open Text

theorem Text.dropLeadingDots_of_head?_ne {t : String} (h : t.toList.head? ≠ some '.') :
    dropLeadingDots t = t := by
  rw [dropLeadingDots]
  cases hchars : t.toList with
  | nil => rw [List.dropWhile_nil, ← hchars, String.ofList_toList]
  | cons c cs =>
      rw [List.dropWhile_cons_of_neg (by simpa [hchars] using h), ← hchars, String.ofList_toList]

/-- The scope declares the name, as a message or as an enumeration. -/
def Scope.Declares (scope : Scope) (name : String) : Prop :=
  (∃ m ∈ scope.messages, m.name = name) ∨ ∃ e ∈ scope.enums, e.name = name

namespace Schema

/-! ## Chains of messages -/

/-- Messages inside each other, innermost first: each of them is directly nested in the next one,
and the last one stands at the top level. -/
inductive Chain (s : Schema) : List Position → Prop
  | nil : s.Chain []
  | top {i : ℕ} (declared : i < s.messages.length) : s.Chain [[i]]
  | nested {p : Position} {outer : List Position} {m : Message} {i : ℕ}
      (chain : s.Chain (p :: outer)) (message : s.messageAt? p = some m)
      (declared : i < m.messages.length) : s.Chain ((p ++ [i]) :: p :: outer)

variable {s : Schema} {p q : Position} {scopes : List Position} {name : String}
  {names : List String} {d : Declaration}

theorem Chain.exists_eq_scopes (h : s.Chain scopes) : ∃ p : Position, scopes = p.scopes := by
  induction h with
  | nil => exact ⟨[], rfl⟩
  | top => exact ⟨_, (Position.scopes_append_singleton [] _).symm⟩
  | @nested p outer _ i _ _ _ ih =>
      obtain ⟨r, hr⟩ := ih
      have hp : p = r := by
        have hhead := Position.head?_scopes r
        rwa [← hr, List.head?_cons, Option.getD_some] at hhead
      refine ⟨p ++ [i], ?_⟩
      rw [Position.scopes_append_singleton, hr, hp]

/-- A message in the scope at `p` is one of those that the scope holds. -/
theorem exists_scopeAt?_of_messageAt?_concat {i : ℕ} {m : Message}
    (h : s.messageAt? (p ++ [i]) = some m) :
    ∃ scope, s.scopeAt? p = some scope ∧ scope.messages[i]? = some m := by
  cases hscope : s.scopeAt? p with
  | some scope => exact ⟨scope, rfl, messageAt?_concat hscope i ▸ h⟩
  | none =>
      cases p with
      | nil => simp [scopeAt?] at hscope
      | cons j rest =>
          have hnone : s.messages[j]?.bind (·.descend? rest) = none := by
            simpa [scopeAt?, messageAt?] using hscope
          rw [List.cons_append, messageAt?] at h
          simp only [Message.descend?_append, ← Option.bind_assoc, hnone] at h
          contradiction

theorem chain_scopes_of_mem_positions (h : p ∈ s.positions) : s.Chain p.scopes := by
  induction p using List.reverseRecOn with
  | nil => exact .nil
  | append_singleton p i ih =>
      obtain ⟨n, hn⟩ := Option.isSome_iff_exists.mp ((mem_positions_iff s _).mp h)
      obtain ⟨scope, hscope, hi⟩ := exists_scopeAt?_of_messageAt?_concat hn
      obtain ⟨hdeclared, -⟩ := List.getElem?_eq_some_iff.mp hi
      rw [Position.scopes_append_singleton]
      cases p with
      | nil =>
          obtain rfl : Scope.mk s.messages s.enums = scope := by simpa [scopeAt?] using hscope
          exact .top hdeclared
      | cons j rest =>
          simp only [scopeAt?, Option.map_eq_some_iff] at hscope
          obtain ⟨m, hm, rfl⟩ := hscope
          have hchain := ih ((mem_positions_iff s _).mpr (by rw [hm, Option.isSome_some]))
          rw [Position.scopes_of_ne_nil (List.cons_ne_nil j rest)] at hchain ⊢
          exact hchain.nested hm hdeclared

/-! ## What a name means in a scope -/

def DeclaresAt (s : Schema) (p : Position) (name : String) : Prop :=
  ∃ scope, s.scopeAt? p = some scope ∧ scope.Declares name

/-- In the scope at a position the name means the first message of that name, or an enumeration
where no message has it. -/
inductive Denotes (s : Schema) (p : Position) (name : String) : Declaration → Prop
  | message {scope : Scope} {i : ℕ} (at_scope : s.scopeAt? p = some scope)
      (first : scope.FirstMessage name i) : s.Denotes p name (.message p.scopes (p ++ [i]))
  | enum {scope : Scope} (at_scope : s.scopeAt? p = some scope)
      (no_message : ∀ m ∈ scope.messages, m.name ≠ name)
      (declared : ∃ e ∈ scope.enums, e.name = name) : s.Denotes p name .enum

theorem declared?_eq_some_iff : s.declared? p.scopes name = some d ↔ s.Denotes p name d := by
  constructor
  · intro h
    cases d with
    | message enclosing q =>
        obtain ⟨rfl, scope, i, hscope, hfirst, rfl⟩ := declared?_eq_message_iff.mp h
        exact .message hscope hfirst
    | enum =>
        obtain ⟨scope, hscope, hmessage, henum⟩ := declared?_eq_enum_iff.mp h
        exact .enum hscope hmessage henum
  · rintro (⟨hscope, hfirst⟩ | ⟨hscope, hmessage, henum⟩)
    · exact declared?_eq_message_iff.mpr ⟨rfl, _, _, hscope, hfirst, rfl⟩
    · exact declared?_eq_enum_iff.mpr ⟨_, hscope, hmessage, henum⟩

theorem Denotes.declaresAt (h : s.Denotes p name d) : s.DeclaresAt p name := by
  cases h with
  | message hscope hfirst =>
      obtain ⟨⟨m, hm, hname⟩, -⟩ := hfirst
      exact ⟨_, hscope, .inl ⟨m, List.mem_of_getElem? hm, hname⟩⟩
  | enum hscope _ henum => exact ⟨_, hscope, .inr henum⟩

theorem DeclaresAt.exists_denotes (h : s.DeclaresAt p name) : ∃ d, s.Denotes p name d := by
  obtain ⟨scope, hscope, hdeclares⟩ := h
  cases hfind : scope.messages.findIdx? (·.name == name) with
  | some i => exact ⟨_, .message hscope (Scope.findIdx?_eq_some_iff.mp hfind)⟩
  | none =>
      -- no message has the name, so that an enumeration has it
      have hmessage := List.findIdx?_eq_none_iff.mp hfind
      simp only [beq_eq_false_iff_ne] at hmessage
      obtain ⟨m, hm, hname⟩ | henum := hdeclares
      · exact absurd hname (hmessage m hm)
      · exact ⟨.enum, .enum hscope hmessage henum⟩

/-! ## The scope that binds a name -/

/-- From inside the scopes, the name is bound in the scope at a position: the innermost that
declares it, or the top level if none of them does. -/
inductive BindsIn (s : Schema) (name : String) : List Position → Position → Prop
  | scope {inner outer : List Position} {p : Position}
      (hidden : ∀ q ∈ inner, ¬ s.DeclaresAt q name) (declared : s.DeclaresAt p name) :
      s.BindsIn name (inner ++ p :: outer) p
  | top {scopes : List Position} (hidden : ∀ q ∈ scopes, ¬ s.DeclaresAt q name)
      (declared : s.DeclaresAt [] name) : s.BindsIn name scopes []

theorem bindsIn_nil_iff : s.BindsIn name [] q ↔ q = [] ∧ s.DeclaresAt [] name := by
  constructor
  · intro h
    generalize hscopes : ([] : List Position) = scopes at h
    cases h with
    | scope => simp at hscopes
    | top _ hdeclared => exact ⟨rfl, hdeclared⟩
  · rintro ⟨rfl, hdeclared⟩
    exact .top (by simp) hdeclared

theorem bindsIn_cons_of_declaresAt (h : s.DeclaresAt p name) :
    s.BindsIn name (p :: scopes) q ↔ q = p := by
  constructor
  · intro hbinds
    generalize hscopes : p :: scopes = all at hbinds
    cases hbinds with
    | @scope inner outer q hidden _ =>
        cases inner with
        | nil => exact (List.cons.inj hscopes).1.symm
        | cons r inner =>
            obtain rfl : p = r := (List.cons.inj hscopes).1
            exact absurd h (hidden p List.mem_cons_self)
    | top hidden _ => exact absurd h (hidden p (hscopes ▸ List.mem_cons_self))
  · rintro rfl
    exact @BindsIn.scope s name [] scopes q (by simp) h

theorem bindsIn_cons_of_not_declaresAt (h : ¬ s.DeclaresAt p name) :
    s.BindsIn name (p :: scopes) q ↔ s.BindsIn name scopes q := by
  constructor
  · intro hbinds
    generalize hscopes : p :: scopes = all at hbinds
    cases hbinds with
    | @scope inner outer q hidden hdeclared =>
        cases inner with
        | nil => exact absurd ((List.cons.inj hscopes).1 ▸ hdeclared) h
        | cons r inner =>
            obtain ⟨-, rfl⟩ := List.cons.inj hscopes
            exact .scope (fun t ht ↦ hidden t (List.mem_cons_of_mem r ht)) hdeclared
    | top hidden hdeclared =>
        subst hscopes
        exact .top (fun t ht ↦ hidden t (List.mem_cons_of_mem p ht)) hdeclared
  · rintro (⟨hidden, hdeclared⟩ | ⟨hidden, hdeclared⟩)
    · exact @BindsIn.scope s name (p :: _) _ q (List.forall_mem_cons.mpr ⟨h, hidden⟩) hdeclared
    · exact .top (List.forall_mem_cons.mpr ⟨h, hidden⟩) hdeclared

theorem visible?_eq_some_iff :
    s.visible? name p.scopes = some d ↔ ∃ q, s.BindsIn name p.scopes q ∧ s.Denotes q name d := by
  induction p using List.reverseRecOn with
  | nil =>
      rw [Position.scopes_nil, visible?, ← Position.scopes_nil, declared?_eq_some_iff]
      simp only [Position.scopes_nil, bindsIn_nil_iff]
      constructor
      · intro h
        exact ⟨[], ⟨rfl, h.declaresAt⟩, h⟩
      · rintro ⟨q, ⟨rfl, -⟩, h⟩
        exact h
  | append_singleton p i ih =>
      rw [Position.scopes_append_singleton, visible?, ← Position.scopes_append_singleton,
        Option.orElse_eq_orElse, Option.orElse_eq_or]
      -- the scope binds the name if it declares it, and otherwise leaves it to those around it
      by_cases hdeclares : s.DeclaresAt (p ++ [i]) name
      · obtain ⟨e, he⟩ := hdeclares.exists_denotes
        have hfound := declared?_eq_some_iff.mpr he
        rw [hfound, Option.some_or, ← hfound, declared?_eq_some_iff,
          Position.scopes_append_singleton]
        simp only [bindsIn_cons_of_declaresAt hdeclares, exists_eq_left]
      · have hnone : s.declared? (Position.scopes (p ++ [i])) name = none :=
          Option.eq_none_iff_forall_ne_some.mpr fun e he ↦
            hdeclares (declared?_eq_some_iff.mp he).declaresAt
        rw [hnone, Option.none_or, ih, Position.scopes_append_singleton]
        simp only [bindsIn_cons_of_not_declaresAt hdeclares]

/-! ## What a reference means -/

/-- Read from the scope at a position, the names lead to a declaration: each but the last to a
message, in which the next one is read. -/
inductive Reaches (s : Schema) : Position → List String → Declaration → Prop
  | last {p : Position} {name : String} {d : Declaration} (denotes : s.Denotes p name d) :
      s.Reaches p [name] d
  | into {p q : Position} {name : String} {names : List String} {d : Declaration}
      (denotes : s.Denotes p name (.message p.scopes q)) (reaches : s.Reaches q names d) :
      s.Reaches p (name :: names) d

theorem Denotes.scopes_eq {enclosing : List Position}
    (h : s.Denotes p name (.message enclosing q)) :
    enclosing = p.scopes ∧ q :: enclosing = q.scopes := by
  cases h with
  | message => exact ⟨rfl, (Position.scopes_append_singleton p _).symm⟩

theorem reaches_cons_iff :
    s.Reaches p (name :: names) d ↔
      ∃ e, s.Denotes p name e ∧ names.foldlM s.member? e = some d := by
  induction names generalizing p name with
  | nil =>
      constructor
      · rintro (hdenotes | ⟨-, hreaches⟩)
        · exact ⟨d, hdenotes, rfl⟩
        · cases hreaches
      · rintro ⟨e, hdenotes, hd⟩
        obtain rfl : e = d := Option.some.inj hd
        exact .last hdenotes
  | cons next names ih =>
      constructor
      · rintro (- | ⟨hdenotes, hreaches⟩)
        obtain ⟨e, he, hd⟩ := ih.mp hreaches
        refine ⟨_, hdenotes, ?_⟩
        rw [List.foldlM_cons, member?, hdenotes.scopes_eq.2, declared?_eq_some_iff.mpr he]
        exact hd
      · rintro ⟨e, hdenotes, hd⟩
        rw [List.foldlM_cons] at hd
        obtain ⟨e', he', hrest⟩ := Option.bind_eq_some_iff.mp hd
        cases e with
        | enum => simp [member?] at he'
        | message enclosing q =>
            obtain ⟨rfl, hscopes⟩ := hdenotes.scopes_eq
            rw [member?, hscopes, declared?_eq_some_iff] at he'
            exact .into hdenotes (ih.mpr ⟨e', he', hrest⟩)

/-- From inside the scopes, the names mean what they lead to from the scope that binds the first of
them. -/
inductive Means (s : Schema) (scopes : List Position) : List String → Declaration → Prop
  | intro {first : String} {rest : List String} {q : Position} {d : Declaration}
      (binds : s.BindsIn first scopes q) (reaches : s.Reaches q (first :: rest) d) :
      s.Means scopes (first :: rest) d

/-- The names are those of the package and then a path that spells the declaration. -/
def MeansInPackage (s : Schema) (names : List String) (d : Declaration) : Prop :=
  ∃ path, names = segments s.package ++ path ∧ s.Spells path d

theorem lookup?_eq_some_iff : s.lookup? p.scopes names = some d ↔ s.Means p.scopes names d := by
  constructor
  · intro h
    cases names with
    | nil => simp [lookup?] at h
    | cons first rest =>
        obtain ⟨e, he, hd⟩ := Option.bind_eq_some_iff.mp h
        obtain ⟨q, hbinds, hdenotes⟩ := visible?_eq_some_iff.mp he
        exact .intro hbinds (reaches_cons_iff.mpr ⟨e, hdenotes, hd⟩)
  · rintro ⟨hbinds, hreaches⟩
    obtain ⟨e, hdenotes, hd⟩ := reaches_cons_iff.mp hreaches
    exact Option.bind_eq_some_iff.mpr ⟨e, visible?_eq_some_iff.mpr ⟨_, hbinds, hdenotes⟩, hd⟩

theorem lookup?_eq_none_iff :
    s.lookup? p.scopes names = none ↔ ∀ e, ¬ s.Means p.scopes names e := by
  rw [Option.eq_none_iff_forall_ne_some]
  simp only [ne_eq, lookup?_eq_some_iff]

theorem lookup?_package_eq_some_iff :
    (if (segments s.package).length < names.length ∧
        names.take (segments s.package).length = segments s.package
      then s.lookup? [] (names.drop (segments s.package).length) else none) = some d ↔
      s.MeansInPackage names d := by
  rw [Option.ite_none_right_eq_some, ← spells_iff_lookup?]
  constructor
  · rintro ⟨⟨-, htake⟩, hspells⟩
    refine ⟨_, ?_, hspells⟩
    nth_rewrite 1 [← List.take_append_drop (segments s.package).length names]
    rw [htake]
  · rintro ⟨path, rfl, hspells⟩
    have hpath : path ≠ [] := by
      rintro rfl
      simpa [lookup?] using lookup?_of_spells hspells
    simpa [List.length_pos_iff.mpr hpath] using hspells

/-- A reference without a leading dot has the meaning that its segments have from inside the
scopes; only if they have none there, the package is taken off. -/
theorem resolve?_eq_some_iff_of_relative {typeName : String}
    (h : typeName.toList.head? ≠ some '.') :
    s.resolve? p.scopes typeName = some d ↔
      s.Means p.scopes (segments typeName) d ∨
        (∀ e, ¬ s.Means p.scopes (segments typeName) e) ∧
          s.MeansInPackage (segments typeName) d := by
  have hrelative : (typeName.toList.head? == some '.') = false := beq_eq_false_iff_ne.mpr h
  rw [← lookup?_eq_some_iff, ← lookup?_eq_none_iff, ← lookup?_package_eq_some_iff,
    ← Option.or_eq_some_iff]
  simp [resolve?, dropLeadingDots_of_head?_ne h, hrelative]

/-- From a message and the messages around it, a reference leads to a message of the schema with
all the messages around that one.  Without a leading dot, its first segment is bound in the
innermost scope that declares it, whatever the scopes further out declare, unless the package was
taken off. -/
theorem resolve?_binds_innermost {s : Schema} {scopes : List Position} (h : s.Chain scopes)
    (typeName : String) :
    (∀ enclosing p, s.resolve? scopes typeName = some (.message enclosing p) →
      p ∈ s.positions ∧ enclosing = p.ancestors ∧ s.Chain (p :: enclosing)) ∧
    (typeName.toList.head? ≠ some '.' → ∀ d, s.resolve? scopes typeName = some d ↔
      s.Means scopes (segments typeName) d ∨
        (∀ e, ¬ s.Means scopes (segments typeName) e) ∧
          s.MeansInPackage (segments typeName) d) := by
  obtain ⟨r, rfl⟩ := h.exists_eq_scopes
  refine ⟨?_, fun hrelative d ↦ resolve?_eq_some_iff_of_relative hrelative⟩
  intro enclosing p hresolve
  have hp := mem_positions_of_resolve? hresolve
  obtain ⟨hne, rfl⟩ := anchored_of_resolve? hresolve
  refine ⟨hp, rfl, ?_⟩
  rw [← Position.scopes_of_ne_nil hne]
  exact chain_scopes_of_mem_positions hp

/-- A message inside another one, beside a message and an enumeration which both have the name of a
message at the top level. -/
def shadowing : Schema where
  syntaxVersion := "proto3"
  package := "geo"
  imports := []
  messages := [
    ⟨"Point", 1, [], [], []⟩,
    ⟨"Area", 2, [], [⟨"Edge", 3, [.declare "Point" "start" 1 false 4], [], []⟩,
      ⟨"Point", 5, [], [], []⟩], [⟨"Point", 6, []⟩]⟩]
  enums := []

theorem resolve?_binds_innermost_shadowing :
    shadowing.Chain [[1, 0], [1]] ∧
      shadowing.Chain [[1, 1], [1]] ∧
      shadowing.Means [[1, 0], [1]] (segments "Point") (.message [[1]] [1, 1]) ∧
      (∀ e, ¬ shadowing.Means [[1, 0], [1]] (segments "geo.Point") e) ∧
      shadowing.MeansInPackage (segments "geo.Point") (.message [] [0]) := by
  have hchain : shadowing.Chain [[1, 0], [1]] :=
    chain_scopes_of_mem_positions (p := [1, 0]) (by decide +kernel)
  have hinner : shadowing.resolve? [[1, 0], [1]] "Point" = some (.message [[1]] [1, 1]) := by
    decide +kernel
  have houter : shadowing.resolve? [[1, 0], [1]] "geo.Point" = some (.message [] [0]) := by
    decide +kernel
  have hbound : shadowing.lookup? (Position.scopes [1, 0]) (segments "Point") ≠ none := by
    decide +kernel
  have hunbound : ∀ e, ¬ shadowing.Means [[1, 0], [1]] (segments "geo.Point") e :=
    lookup?_eq_none_iff (p := [1, 0]).mp (by decide +kernel)
  obtain ⟨hancestors, hmeaning⟩ := resolve?_binds_innermost hchain "Point"
  refine ⟨hchain, (hancestors _ _ hinner).2.2, ?_, hunbound, ?_⟩
  · rcases (hmeaning (by decide) _).mp hinner with hmeans | ⟨hnone, -⟩
    · exact hmeans
    · exact absurd (lookup?_eq_none_iff (p := [1, 0]).mpr hnone) hbound
  · rcases ((resolve?_binds_innermost hchain "geo.Point").2 (by decide) _).mp houter with
      hmeans | ⟨-, hpackage⟩
    · exact absurd hmeans (hunbound _)
    · exact hpackage

end Schema

end ProtoHeader

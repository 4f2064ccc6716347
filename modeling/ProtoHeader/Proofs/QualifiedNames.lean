import ProtoHeader.Proofs.Ancestry
import ProtoHeader.Proofs.EscapedNames

/-!
# Fully qualified references

A declaration is reached from the top level by a path of names.  The reference that spells out the
package in front of this path is first read as if the package were a path of its own: it means the
declaration that it spells unless the segments of the package, taken as the names of messages, lead
to another one.
-/

namespace ProtoHeader

open Text

namespace Text

/-- The absolute reference to a path in a package. -/
def qualified (package path : String) : String :=
  "." ++ package ++ "." ++ path

theorem segments_append_dot (first second : String) :
    segments (first ++ "." ++ second) = segments first ++ segments second := by
  have hdot : ".".toList = ['.'] := by decide
  simp [segments, hdot, List.splitOn_append_cons_self]

theorem segments_qualified (package path : String) :
    segments (qualified package path) = "" :: (segments package ++ segments path) := by
  have hdot : segments ("." ++ package) = "" :: segments package := by
    simpa [segments] using segments_append_dot "" package
  rw [qualified, segments_append_dot, hdot, List.cons_append]

theorem dropLeadingEmpty_cons_of_ne {first : String} (h : first ≠ "") (rest : List String) :
    dropLeadingEmpty (first :: rest) = first :: rest := by
  cases rest with
  | nil => rfl
  | cons second rest => rw [dropLeadingEmpty, if_neg h]

theorem dropLeadingEmpty_ne_empty_cons (names : List String) {second : String}
    {rest : List String} : dropLeadingEmpty names ≠ "" :: second :: rest := by
  fun_induction dropLeadingEmpty names with
  | case1 second rest ih => exact ih
  | case2 first second rest hfirst =>
      intro h
      exact hfirst (List.cons.inj h).1
  | case3 names hshort =>
      rintro rfl
      exact hshort "" second rest rfl

theorem segments_dropLeadingDots_qualified (package path : String) :
    segments (dropLeadingDots (qualified package path)) =
      dropLeadingEmpty (segments package ++ segments path) := by
  obtain ⟨first, rest, hpackage⟩ := List.exists_cons_of_ne_nil (segments_ne_nil package)
  rw [segments_dropLeadingDots, segments_qualified, hpackage, List.cons_append, dropLeadingEmpty,
    if_pos rfl]

end Text

/-! ## Paths of names -/

/-- The message at index `i` of the scope is the first one of the given name. -/
def Scope.FirstMessage (scope : Scope) (name : String) (i : ℕ) : Prop :=
  (∃ m, scope.messages[i]? = some m ∧ m.name = name) ∧
    ∀ j < i, ∀ m, scope.messages[j]? = some m → m.name ≠ name

theorem Scope.findIdx?_eq_some_iff {scope : Scope} {name : String} {i : ℕ} :
    scope.messages.findIdx? (·.name == name) = some i ↔ scope.FirstMessage name i := by
  rw [List.findIdx?_eq_some_iff_getElem]
  constructor
  · rintro ⟨hi, hname, hbefore⟩
    refine ⟨⟨_, List.getElem?_eq_getElem hi, by simpa using hname⟩, ?_⟩
    intro j hj m hm
    have hlt : j < scope.messages.length := by omega
    rw [List.getElem?_eq_getElem hlt] at hm
    obtain rfl := Option.some.inj hm
    simpa using hbefore j hj
  · rintro ⟨⟨m, hm, hname⟩, hbefore⟩
    obtain ⟨hi, rfl⟩ := List.getElem?_eq_some_iff.mp hm
    refine ⟨hi, by simpa using hname, ?_⟩
    intro j hj
    have hlt : j < scope.messages.length := by omega
    simpa using hbefore j hj _ (List.getElem?_eq_getElem hlt)

namespace Schema

/-- The names lead from the top level down to the message at a position, each of them to the first
message of that name. -/
inductive Leads (s : Schema) : List String → Position → Prop
  | top : s.Leads [] []
  | into {names : List String} {p : Position} {scope : Scope} {name : String} {i : ℕ}
      (outer : s.Leads names p) (at_scope : s.scopeAt? p = some scope)
      (first : scope.FirstMessage name i) : s.Leads (names ++ [name]) (p ++ [i])

/-- The names spell a declaration: the message that they lead to, with its ancestors, or, where the
last of them names no message, an enumeration. -/
inductive Spells (s : Schema) : List String → Declaration → Prop
  | message {names : List String} {p : Position} (leads : s.Leads names p) (named : p ≠ []) :
      s.Spells names (.message p.ancestors p)
  | enum {names : List String} {p : Position} {scope : Scope} {name : String}
      (leads : s.Leads names p) (at_scope : s.scopeAt? p = some scope)
      (no_message : ∀ m ∈ scope.messages, m.name ≠ name)
      (declared : ∃ e ∈ scope.enums, e.name = name) : s.Spells (names ++ [name]) .enum

variable {s : Schema} {p q : Position} {names : List String} {name : String} {d : Declaration}

theorem declared?_eq_message_iff {enclosing : List Position} :
    s.declared? p.scopes name = some (.message enclosing q) ↔
      enclosing = p.scopes ∧
        ∃ scope i, s.scopeAt? p = some scope ∧ scope.FirstMessage name i ∧ q = p ++ [i] := by
  rw [declared?, Position.head?_scopes]
  cases hscope : s.scopeAt? p with
  | none => simp
  | some scope =>
      cases hfind : scope.messages.findIdx? (·.name == name) with
      | none =>
          have hfirst : ∀ i, ¬ scope.FirstMessage name i := by
            intro i hi
            rw [Scope.findIdx?_eq_some_iff.mpr hi] at hfind
            contradiction
          simp [hfind, hfirst]
      | some i =>
          have hfirst : ∀ j, scope.FirstMessage name j ↔ i = j := by
            intro j
            rw [← Scope.findIdx?_eq_some_iff, hfind, Option.some.injEq]
          simp [hfind, hfirst, eq_comm]

theorem declared?_eq_enum_iff :
    s.declared? p.scopes name = some .enum ↔
      ∃ scope, s.scopeAt? p = some scope ∧ (∀ m ∈ scope.messages, m.name ≠ name) ∧
        ∃ e ∈ scope.enums, e.name = name := by
  rw [declared?, Position.head?_scopes]
  cases hscope : s.scopeAt? p with
  | none => simp
  | some scope =>
      cases hfind : scope.messages.findIdx? (·.name == name) with
      | none =>
          have hnone := List.findIdx?_eq_none_iff.mp hfind
          simp only [beq_eq_false_iff_ne] at hnone
          simpa [hfind] using fun e _ _ ↦ hnone
      | some i =>
          obtain ⟨⟨m, hm, hname⟩, -⟩ := Scope.findIdx?_eq_some_iff.mp hfind
          have hmem : m ∈ scope.messages := List.mem_of_getElem? hm
          have hsome : ¬ ∀ n ∈ scope.messages, n.name ≠ name := fun h ↦ h m hmem hname
          simp only [hfind, Option.some.injEq, reduceCtorEq, false_iff, not_exists, not_and]
          rintro _ rfl hall
          exact absurd hall hsome

theorem lookup?_concat (scopes : List Position) (hne : names ≠ []) :
    s.lookup? scopes (names ++ [name]) = (s.lookup? scopes names).bind (s.member? · name) := by
  obtain ⟨first, rest, rfl⟩ := List.exists_cons_of_ne_nil hne
  simp only [List.cons_append, lookup?, Option.bind_eq_bind, Option.bind_assoc]
  congr 1
  funext d
  rw [List.foldlM_append]
  simp

/-- One more name after a path is looked up in the scope that the path leads to. -/
theorem Leads.lookup?_concat (h : s.Leads names p) (name : String) :
    s.lookup? [] (names ++ [name]) = s.declared? p.scopes name := by
  induction h generalizing name with
  | top => simp [lookup?, visible?]
  | @into names p scope inner i _ hscope hfirst ih =>
      have hinner : s.declared? p.scopes inner = some (.message p.scopes (p ++ [i])) :=
        declared?_eq_message_iff.mpr ⟨rfl, scope, i, hscope, hfirst, rfl⟩
      rw [Schema.lookup?_concat [] (by simp), ih, hinner, Position.scopes_append_singleton]
      rfl

theorem lookup?_of_spells (h : s.Spells names d) : s.lookup? [] names = some d := by
  cases h with
  | message leads hp =>
      cases leads with
      | top => contradiction
      | @into names p scope name i outer hscope hfirst =>
          rw [outer.lookup?_concat, Position.ancestors_append_singleton]
          exact declared?_eq_message_iff.mpr ⟨rfl, scope, i, hscope, hfirst, rfl⟩
  | enum leads hscope hmessage henum =>
      rw [leads.lookup?_concat]
      exact declared?_eq_enum_iff.mpr ⟨_, hscope, hmessage, henum⟩

theorem Leads.spells_of_declared? (h : s.Leads names p) (hd : s.declared? p.scopes name = some d) :
    s.Spells (names ++ [name]) d := by
  cases d with
  | message enclosing q =>
      obtain ⟨rfl, scope, i, hscope, hfirst, rfl⟩ := declared?_eq_message_iff.mp hd
      rw [← Position.ancestors_append_singleton p i]
      exact .message (h.into hscope hfirst) (by simp)
  | enum =>
      obtain ⟨scope, hscope, hmessage, henum⟩ := declared?_eq_enum_iff.mp hd
      exact .enum h hscope hmessage henum

theorem spells_of_lookup? (h : s.lookup? [] names = some d) : s.Spells names d := by
  induction names using List.reverseRecOn generalizing d with
  | nil => simp [lookup?] at h
  | append_singleton names name ih =>
      by_cases hne : names = []
      · subst hne
        have hd : s.declared? (Position.scopes []) name = some d := by
          simpa [lookup?, visible?] using h
        exact Leads.top.spells_of_declared? hd
      · rw [Schema.lookup?_concat [] hne] at h
        obtain ⟨outer, houter, hd⟩ := Option.bind_eq_some_iff.mp h
        cases ih houter with
        | message leads hp =>
            rw [member?, ← Position.scopes_of_ne_nil hp] at hd
            exact leads.spells_of_declared? hd
        | enum => simp [member?] at hd

theorem spells_iff_lookup? : s.Spells names d ↔ s.lookup? [] names = some d :=
  ⟨lookup?_of_spells, spells_of_lookup?⟩

/-! ## Resolution -/

theorem resolve?_qualified {path : String} {spelled : List String}
    (h : dropLeadingEmpty (segments s.package ++ segments path) = spelled)
    (scopes : List Position) :
    s.resolve? scopes (qualified s.package path) =
      (s.lookup? [] spelled).or
        (if (segments s.package).length < spelled.length ∧
            spelled.take (segments s.package).length = segments s.package
          then s.lookup? [] (spelled.drop (segments s.package).length) else none) := by
  have hhead : (qualified s.package path).toList.head? = some '.' := by
    simp [qualified]
  simp [resolve?, hhead, segments_dropLeadingDots_qualified, h]

/-- A package that starts with a dot, or is empty, is not told from the dot of the reference, and so
is never taken off. -/
theorem resolve?_qualified_of_empty {rest : List String}
    (h : segments s.package = "" :: rest) (scopes : List Position) (path : String) :
    s.resolve? scopes (qualified s.package path) =
      s.lookup? [] (dropLeadingEmpty (segments s.package ++ segments path)) := by
  cases hspelled : dropLeadingEmpty (segments s.package ++ segments path) with
  | nil => simp [resolve?_qualified hspelled]
  | cons first names =>
      have hpackage : ¬ ((segments s.package).length < (first :: names).length ∧
          (first :: names).take (segments s.package).length = segments s.package) := by
        rintro ⟨hlength, htake⟩
        rw [h, List.length_cons, List.take_succ_cons] at htake
        obtain rfl : first = "" := (List.cons.inj htake).1
        cases names with
        | nil => simp [h] at hlength
        | cons second names => exact dropLeadingEmpty_ne_empty_cons _ hspelled
      rw [resolve?_qualified hspelled, if_neg hpackage, Option.or_none]

theorem resolve?_qualified_of_ne_empty {first : String} {rest : List String}
    (h : segments s.package = first :: rest) (hfirst : first ≠ "") (scopes : List Position)
    (path : String) :
    s.resolve? scopes (qualified s.package path) =
      (s.lookup? [] (segments s.package ++ segments path)).or (s.lookup? [] (segments path)) := by
  have hspelled : dropLeadingEmpty (segments s.package ++ segments path) =
      segments s.package ++ segments path := by
    rw [h, List.cons_append, dropLeadingEmpty_cons_of_ne hfirst]
  have hpath : 0 < (segments path).length := List.length_pos_iff.mpr (segments_ne_nil path)
  rw [resolve?_qualified hspelled]
  simp [hpath]

/-- Names that spell a declaration start with the name of a message, unless there is only one. -/
theorem exists_message_of_spells {first second : String}
    (h : s.Spells (first :: second :: names) d) : ∃ m ∈ s.messages, m.name = first := by
  obtain ⟨e, he, hd⟩ := Option.bind_eq_some_iff.mp (lookup?_of_spells h)
  cases e with
  | message enclosing q =>
      obtain ⟨-, scope, i, hscope, ⟨⟨m, hm, hname⟩, -⟩, -⟩ :=
        declared?_eq_message_iff (p := []).mp he
      obtain rfl : Scope.mk s.messages s.enums = scope := by simpa [scopeAt?] using hscope
      exact ⟨m, List.mem_of_getElem? hm, hname⟩
  | enum => simp [List.foldlM_cons, member?] at hd

/-- A fully qualified reference means the declaration that its path spells unless the package and
the path, read together as one path, spell another.  This takes a top-level message named like the
first segment of the package. -/
theorem resolve?_qualified_iff {s : Schema} {path : String} {d : Declaration}
    (h : s.Spells (segments path) d) :
    (∀ scopes, s.resolve? scopes (qualified s.package path) = some d ↔
      if (segments s.package).head? = some ""
        then s.Spells (dropLeadingEmpty (segments s.package ++ segments path)) d
        else ∀ e, s.Spells (segments s.package ++ segments path) e → e = d) ∧
    ∀ first, (segments s.package).head? = some first → first ≠ "" →
      (∀ m ∈ s.messages, m.name ≠ first) →
      ∀ scopes, s.resolve? scopes (qualified s.package path) = some d := by
  obtain ⟨first, rest, hpackage⟩ := List.exists_cons_of_ne_nil (segments_ne_nil s.package)
  have hhead : (segments s.package).head? = some first := by rw [hpackage, List.head?_cons]
  have hiff : ∀ scopes, s.resolve? scopes (qualified s.package path) = some d ↔
      if (segments s.package).head? = some ""
        then s.Spells (dropLeadingEmpty (segments s.package ++ segments path)) d
        else ∀ e, s.Spells (segments s.package ++ segments path) e → e = d := by
    intro scopes
    by_cases hfirst : first = ""
    · subst hfirst
      rw [resolve?_qualified_of_empty hpackage, if_pos hhead, spells_iff_lookup?]
    · rw [resolve?_qualified_of_ne_empty hpackage hfirst, lookup?_of_spells h,
        if_neg (by simpa [hhead] using hfirst)]
      simp only [spells_iff_lookup?]
      cases s.lookup? [] (segments s.package ++ segments path) <;> simp
  refine ⟨hiff, ?_⟩
  intro start hstart hne hmessages scopes
  obtain rfl : first = start := Option.some.inj (hhead.symm.trans hstart)
  apply (hiff scopes).mpr
  rw [if_neg (by simpa [hhead] using hne)]
  intro e he
  -- no name of a message is the first segment, so the package leads nowhere
  obtain ⟨second, tail, htail⟩ := List.exists_cons_of_ne_nil
    (List.append_ne_nil_of_right_ne_nil rest (segments_ne_nil path))
  rw [hpackage, List.cons_append, htail] at he
  obtain ⟨m, hm, hname⟩ := exists_message_of_spells he
  exact absurd hname (hmessages m hm)

/-- A message named like the package, with a message inside that is named like a top-level one. -/
def selfNamed : Schema where
  syntaxVersion := "proto3"
  package := "geo"
  imports := []
  messages := [
    ⟨"Point", 1, [.declare "int64" "x" 1 false 2, .declare "int64" "y" 2 false 3], [], []⟩,
    ⟨"geo", 4, [], [⟨"Point", 5, [.declare "bool" "set" 1 false 6], [], []⟩], []⟩]
  enums := []

theorem resolve?_qualified_iff_selfNamed :
    selfNamed.Spells (segments "Point") (.message [] [0]) ∧
      selfNamed.resolve? [] (qualified "geo" "Point") ≠ some (.message [] [0]) := by
  have hspells : selfNamed.Spells (segments "Point") (.message [] [0]) :=
    spells_of_lookup? (by decide +kernel)
  have hother : selfNamed.Spells (segments "geo" ++ segments "Point") (.message [[1]] [1, 0]) :=
    spells_of_lookup? (by decide +kernel)
  have hpackage : ¬ (segments selfNamed.package).head? = some "" := by decide +kernel
  obtain ⟨hiff, -⟩ := resolve?_qualified_iff hspells
  refine ⟨hspells, ?_⟩
  intro hresolve
  have honly := (hiff []).mp hresolve
  rw [if_neg hpackage] at honly
  have hsame := honly _ hother
  simp at hsame

end Schema

end ProtoHeader

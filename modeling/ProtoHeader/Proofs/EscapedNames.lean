import ProtoHeader.Proofs.Revision

/-!
# Escaped names

A header declares every name of a schema with an underscore after it if it is reserved, and spells
references and the package in the same way.  Layouts are computed from the names as the schema has
them.  As long as no name looks like an escaped one, both spellings tell the same names apart, and
a reference leads to the same declaration either way.
-/

namespace ProtoHeader

/-! ## Segments and leading dots -/

namespace Text

theorem segments_ne_nil (t : String) : segments t ≠ [] := by
  simp [segments, List.splitOn_ne_nil]

theorem segments_ofList_dot (cs : List Char) :
    segments (String.ofList ('.' :: cs)) = "" :: segments (String.ofList cs) := by
  simp [segments, List.splitOn_cons_eq_if_modifyHead]

/-- A text that starts with another character has a first segment that does so too. -/
theorem exists_segments_ofList_cons {c : Char} (hc : c ≠ '.') (cs : List Char) :
    ∃ first rest, segments (String.ofList cs) = first :: rest ∧
      segments (String.ofList (c :: cs)) = String.ofList (c :: first.toList) :: rest := by
  cases hsplit : cs.splitOn '.' with
  | nil => exact absurd hsplit (List.splitOn_ne_nil '.' cs)
  | cons first rest =>
      refine ⟨String.ofList first, rest.map String.ofList, ?_, ?_⟩
      · simp [segments, hsplit]
      · simp [segments, List.splitOn_cons_eq_if_modifyHead, hc, hsplit]

theorem dot_notMem_of_mem_ofList {cs : List Char} {name : String}
    (h : name ∈ segments (String.ofList cs)) : '.' ∉ name.toList := by
  induction cs generalizing name with
  | nil =>
      obtain rfl : name = "" := by simpa [segments] using h
      simp
  | cons c cs ih =>
      by_cases hc : c = '.'
      · subst hc
        rw [segments_ofList_dot] at h
        rcases List.mem_cons.1 h with rfl | h
        · simp
        · exact ih h
      · obtain ⟨first, rest, hsegments, hcons⟩ := exists_segments_ofList_cons hc cs
        rw [hcons] at h
        rcases List.mem_cons.1 h with rfl | h
        · have hfirst := ih (hsegments ▸ List.mem_cons_self)
          simpa [Ne.symm hc] using hfirst
        · exact ih (hsegments ▸ List.mem_cons_of_mem first h)

theorem dot_notMem_of_mem_segments {t name : String} (h : name ∈ segments t) :
    '.' ∉ name.toList := by
  have hchars : name ∈ segments (String.ofList t.toList) := by rwa [String.ofList_toList]
  exact dot_notMem_of_mem_ofList hchars

theorem segments_intercalate {names : List String} (hne : names ≠ [])
    (h : ∀ name ∈ names, '.' ∉ name.toList) : segments (".".intercalate names) = names := by
  have hdot : ".".toList = ['.'] := by decide
  rw [segments, String.toList_intercalate, hdot, List.splitOn_intercalate]
  · simp [Function.comp_def]
  · simpa using h
  · simpa using hne

/-- The segments that are left when the leading dots are dropped. -/
def dropLeadingEmpty : List String → List String
  | first :: second :: rest =>
    if first = "" then dropLeadingEmpty (second :: rest) else first :: second :: rest
  | names => names

theorem mem_of_mem_dropLeadingEmpty {names : List String} {name : String}
    (h : name ∈ dropLeadingEmpty names) : name ∈ names := by
  fun_induction dropLeadingEmpty names with
  | case1 second rest ih => exact List.mem_cons_of_mem "" (ih h)
  | case2 => exact h
  | case3 => exact h

theorem dropLeadingEmpty_map {f : String → String} (hf : ∀ name, f name = "" ↔ name = "")
    (names : List String) : dropLeadingEmpty (names.map f) = (dropLeadingEmpty names).map f := by
  fun_induction dropLeadingEmpty names with
  | case1 second rest ih =>
      rw [List.map_cons, List.map_cons, dropLeadingEmpty, if_pos ((hf "").2 rfl), ← ih,
        List.map_cons]
  | case2 first second rest hfirst =>
      rw [List.map_cons, List.map_cons, dropLeadingEmpty, if_neg (mt (hf first).1 hfirst)]
  | case3 names hshort =>
      cases names with
      | nil => rfl
      | cons first rest =>
          cases rest with
          | nil => rfl
          | cons second rest => exact absurd rfl (hshort first second rest)

/-- A text starts with a dot iff its first segment is empty and not the only one. -/
theorem head?_eq_dot_iff (t : String) :
    t.toList.head? = some '.' ↔ ∃ second rest, segments t = "" :: second :: rest := by
  obtain ⟨cs, rfl⟩ : ∃ cs, t = String.ofList cs := ⟨t.toList, String.ofList_toList.symm⟩
  rw [String.toList_ofList]
  cases cs with
  | nil => simp [segments]
  | cons c cs =>
      by_cases hc : c = '.'
      · subst hc
        obtain ⟨second, rest, hcs⟩ := List.exists_cons_of_ne_nil (segments_ne_nil (.ofList cs))
        rw [segments_ofList_dot, hcs]
        simp
      · obtain ⟨first, rest, -, hcons⟩ := exists_segments_ofList_cons hc cs
        rw [hcons]
        simp [hc]

theorem segments_dropLeadingDots (t : String) :
    segments (dropLeadingDots t) = dropLeadingEmpty (segments t) := by
  obtain ⟨cs, rfl⟩ : ∃ cs, t = String.ofList cs := ⟨t.toList, String.ofList_toList.symm⟩
  rw [dropLeadingDots, String.toList_ofList]
  induction cs with
  | nil => simp [segments, dropLeadingEmpty]
  | cons c cs ih =>
      by_cases hc : c = '.'
      · subst hc
        obtain ⟨second, rest, hcs⟩ := List.exists_cons_of_ne_nil (segments_ne_nil (.ofList cs))
        rw [segments_ofList_dot, hcs, dropLeadingEmpty, if_pos rfl, ← hcs, ← ih,
          List.dropWhile_cons_of_pos (by simp)]
      · obtain ⟨first, rest, -, hcons⟩ := exists_segments_ofList_cons hc cs
        rw [List.dropWhile_cons_of_neg (by simpa using hc), hcons]
        cases rest with
        | nil => rfl
        | cons second rest =>
            rw [dropLeadingEmpty, if_neg]
            simp

end Text

/-! ## Escaping -/

namespace Header

/-- The name is spelled like a reserved word that has been escaped. -/
def IsEscaped (name : String) : Prop :=
  ∃ word ∈ reservedWords, name = word ++ "_"

instance (name : String) : Decidable (IsEscaped name) :=
  inferInstanceAs (Decidable (∃ word ∈ reservedWords, name = word ++ "_"))

/-- The names are the same, or one of them is a reserved word and the other is that word escaped. -/
def Collide (a b : String) : Prop :=
  a = b ∨ (a ∈ reservedWords ∧ b = a ++ "_") ∨ (b ∈ reservedWords ∧ a = b ++ "_")

theorem safeName_safeName (name : String) : safeName (safeName name) = safeName name :=
  if_neg (safeName_notMem name)

theorem safeName_concat_underscore {word : String} (h : word ∈ reservedWords) :
    safeName (word ++ "_") = safeName word := by
  have hescaped : safeName word = word ++ "_" := if_pos h
  rw [← hescaped, safeName_safeName]

theorem safeName_eq_safeName_iff {a b : String} : safeName a = safeName b ↔ Collide a b := by
  constructor
  · intro h
    unfold safeName at h
    split at h <;> split at h
    · exact .inl ((String.append_left_inj "_").1 h)
    · next hreserved _ => exact .inr (.inl ⟨hreserved, h.symm⟩)
    · next _ hreserved => exact .inr (.inr ⟨hreserved, h⟩)
    · exact .inl h
  · rintro (rfl | ⟨hreserved, rfl⟩ | ⟨hreserved, rfl⟩)
    · rfl
    · exact (safeName_concat_underscore hreserved).symm
    · exact safeName_concat_underscore hreserved

theorem safeName_eq_iff {a b : String} (ha : ¬ IsEscaped a) (hb : ¬ IsEscaped b) :
    safeName a = safeName b ↔ a = b := by
  rw [safeName_eq_safeName_iff, Collide, or_iff_left]
  rintro (⟨hreserved, heq⟩ | ⟨hreserved, heq⟩)
  · exact hb ⟨a, hreserved, heq⟩
  · exact ha ⟨b, hreserved, heq⟩

theorem safeName_eq_empty_iff (name : String) : safeName name = "" ↔ name = "" := by
  have hempty : "" ∉ reservedWords := by decide +kernel
  constructor
  · intro h
    unfold safeName at h
    split at h
    · simp at h
    · exact h
  · rintro rfl
    rw [safeName, if_neg hempty]

theorem dot_notMem_safeName {name : String} (h : '.' ∉ name.toList) :
    '.' ∉ (safeName name).toList := by
  unfold safeName
  split
  · simpa using h
  · exact h

/-- A dotted name with each of its segments escaped. -/
def safeReference (dotted : String) : String :=
  ".".intercalate ((Text.segments dotted).map safeName)

theorem segments_safeReference (dotted : String) :
    Text.segments (safeReference dotted) = (Text.segments dotted).map safeName := by
  apply Text.segments_intercalate
  · simpa using Text.segments_ne_nil dotted
  · intro name hname
    obtain ⟨segment, hsegment, rfl⟩ := List.mem_map.1 hname
    exact dot_notMem_safeName (Text.dot_notMem_of_mem_segments hsegment)

theorem segments_dropLeadingDots_safeReference (dotted : String) :
    Text.segments (Text.dropLeadingDots (safeReference dotted)) =
      (Text.segments (Text.dropLeadingDots dotted)).map safeName := by
  rw [Text.segments_dropLeadingDots, Text.segments_dropLeadingDots, segments_safeReference,
    Text.dropLeadingEmpty_map safeName_eq_empty_iff]

theorem head?_safeReference_eq_dot_iff (dotted : String) :
    (safeReference dotted).toList.head? = some '.' ↔ dotted.toList.head? = some '.' := by
  rw [Text.head?_eq_dot_iff, Text.head?_eq_dot_iff, segments_safeReference]
  cases Text.segments dotted with
  | nil => simp
  | cons first names => cases names <;> simp [safeName_eq_empty_iff]

theorem scopedName_eq_intercalate (dotted : String) :
    scopedName dotted = "::".intercalate (Text.segments (safeReference dotted)) := by
  rw [scopedName, segments_safeReference]

/-- The names that a header uses in place of those of a schema. -/
def escaping : Revision where
  package := safeReference
  name := safeName
  field f := { f with
    name := safeName f.name
    typeName := if f.scalar?.isSome then f.typeName else safeReference f.typeName }
  enum e := { e with
    name := safeName e.name
    values := e.values.map fun v ↦ { v with name := safeName v.name } }

/-- The header declares what the schema declares, at the same places and by the same names. -/
structure Declares (h : Header) (s : Schema) : Prop where
  scope : h.scope = "::".intercalate (Text.segments s.package)
  enums : h.enums.map (·.name) = s.enums.map (·.name)
  classes : ∀ p, (h.classAt? p).map (fun c ↦ (c.name, c.enums.map (·.name))) =
    (s.messageAt? p).map fun m ↦ (m.name, m.enums.map (·.name))

end Header

/-! ## Schemas with their names escaped -/

namespace Message

theorem mem_families_iff {ms : List Message} {n : Message} :
    n ∈ families ms ↔ ∃ m ∈ ms, n ∈ m.family := by
  induction ms with
  | nil => simp [families]
  | cons m ms ih => simp [families, ih]

theorem mem_family_of_descend? {m n : Message} {p : Position} (h : m.descend? p = some n) :
    n ∈ m.family := by
  induction p generalizing m with
  | nil =>
      obtain rfl : m = n := by simpa [descend?] using h
      cases m
      simp [family]
  | cons i rest ih =>
      obtain ⟨k, hk, hn⟩ := Option.bind_eq_some_iff.1 h
      have hmem : n ∈ families m.messages :=
        mem_families_iff.2 ⟨k, List.mem_of_getElem? hk, ih hn⟩
      cases m
      exact List.mem_cons_of_mem _ hmem

/-- The names that a message has and gives to its enumerations, and the segments of those that it
refers to. -/
def ownNames (m : Message) : List String :=
  m.name :: (m.enums.map (·.name) ++ m.fields.flatMap fun f ↦ Text.segments f.typeName)

end Message

namespace Schema

open Header

/-- The names that a schema declares or refers to, and the segments of its package. -/
def mentionedNames (s : Schema) : List String :=
  Text.segments s.package ++ (s.enums.map (·.name) ++ s.allMessages.flatMap Message.ownNames)

def escaped (s : Schema) : Schema :=
  s.revise escaping

variable {s : Schema} {p : Position}

theorem mem_allMessages_of_messageAt? {m : Message} (h : s.messageAt? p = some m) :
    m ∈ s.allMessages := by
  cases p with
  | nil => simp [messageAt?] at h
  | cons i rest =>
      obtain ⟨k, hk, hm⟩ := Option.bind_eq_some_iff.1 h
      exact Message.mem_families_iff.2
        ⟨k, List.mem_of_getElem? hk, Message.mem_family_of_descend? hm⟩

theorem mem_mentionedNames_of_ownNames {m : Message} (h : s.messageAt? p = some m) {name : String}
    (hname : name ∈ m.ownNames) : name ∈ s.mentionedNames := by
  apply List.mem_append_right
  apply List.mem_append_right
  exact List.mem_flatMap.2 ⟨m, mem_allMessages_of_messageAt? h, hname⟩

theorem mem_mentionedNames_of_mem_messages {scope : Scope} (h : s.scopeAt? p = some scope)
    {m : Message} (hm : m ∈ scope.messages) : m.name ∈ s.mentionedNames := by
  obtain ⟨i, hi⟩ := List.mem_iff_getElem?.1 hm
  have hplace : s.messageAt? (p ++ [i]) = some m := (messageAt?_concat h i).trans hi
  exact mem_mentionedNames_of_ownNames hplace List.mem_cons_self

theorem mem_mentionedNames_of_mem_enums {scope : Scope} (h : s.scopeAt? p = some scope)
    {e : EnumDecl} (he : e ∈ scope.enums) : e.name ∈ s.mentionedNames := by
  cases p with
  | nil =>
      obtain rfl : Scope.mk s.messages s.enums = scope := by simpa [scopeAt?] using h
      apply List.mem_append_right
      apply List.mem_append_left
      exact List.mem_map_of_mem he
  | cons i rest =>
      simp only [scopeAt?, Option.map_eq_some_iff] at h
      obtain ⟨m, hm, rfl⟩ := h
      apply mem_mentionedNames_of_ownNames hm
      apply List.mem_cons_of_mem
      apply List.mem_append_left
      exact List.mem_map_of_mem he

theorem mem_mentionedNames_of_mem_fieldsAt {f : Field} (hf : f ∈ s.fieldsAt p) {name : String}
    (hname : name ∈ Text.segments f.typeName) : name ∈ s.mentionedNames := by
  rw [fieldsAt] at hf
  cases hm : s.messageAt? p with
  | none => simp [hm] at hf
  | some m =>
      have hmem : f ∈ m.fields := by simpa [hm] using hf
      apply mem_mentionedNames_of_ownNames hm
      apply List.mem_cons_of_mem
      apply List.mem_append_right
      exact List.mem_flatMap.2 ⟨f, hmem, hname⟩

theorem renames_escaping (h : ∀ name ∈ s.mentionedNames, ¬ IsEscaped name) {name : String}
    (hname : ¬ IsEscaped name) : s.Renames escaping name (safeName name) := by
  intro p scope hscope
  constructor
  · intro m hm
    exact safeName_eq_iff (h _ (mem_mentionedNames_of_mem_messages hscope hm)) hname
  · intro e he
    exact safeName_eq_iff (h _ (mem_mentionedNames_of_mem_enums hscope he)) hname

theorem resolve?_escaped (h : ∀ name ∈ s.mentionedNames, ¬ IsEscaped name) {typeName : String}
    (htype : ∀ name ∈ Text.segments typeName, ¬ IsEscaped name) (scopes : List Position) :
    s.escaped.resolve? scopes (safeReference typeName) = s.resolve? scopes typeName := by
  have hsegment : ∀ name ∈ Text.segments (Text.dropLeadingDots typeName), ¬ IsEscaped name := by
    intro name hname
    rw [Text.segments_dropLeadingDots] at hname
    exact htype name (Text.mem_of_mem_dropLeadingEmpty hname)
  have hpackage : Text.segments (escaping.package s.package) =
      (Text.segments s.package).map safeName :=
    segments_safeReference s.package
  rw [escaped]
  apply resolve?_revise safeName (head?_safeReference_eq_dot_iff typeName)
    (segments_dropLeadingDots_safeReference typeName) hpackage
  · intro name hname
    exact renames_escaping h (hsegment name hname)
  · intro a ha b hb
    exact (safeName_eq_iff (hsegment a ha) (h b (List.mem_append_left _ hb))).1

theorem declares_escaped (s : Schema) (options : Options) :
    (s.header options).Declares s.escaped where
  scope := scopedName_eq_intercalate s.package
  enums := by simp [header, escaped, revise, enumClass, escaping, Function.comp_def]
  classes p := by
    rw [header_classAt?, escaped, messageAt?_revise, Option.map_map, Option.map_map]
    congr 1
    funext m
    cases m
    simp [classTree, Message.revise, enumClass, escaping, Function.comp_def]

/-- If no name that occurs in a schema is spelled like an escaped reserved word, then a reference
in escaped spelling leads through the escaped names to the same declaration as before.  The escaped
names are those under which the header declares messages and enumerations, and the types of its
members are spelled by them. -/
theorem escaped_references_lead_alike {s : Schema}
    (h : ∀ name ∈ s.mentionedNames, ¬ IsEscaped name) :
    (∀ (scopes : List Position) (p : Position), ∀ f ∈ s.fieldsAt p,
      s.escaped.resolve? scopes (safeReference f.typeName) = s.resolve? scopes f.typeName) ∧
    (∀ options : Options, (s.header options).Declares s.escaped) ∧
    ∀ f : Field, f.scalar? = none →
      f.elementType = "::".intercalate (Text.segments (safeReference f.typeName)) := by
  refine ⟨?_, s.declares_escaped, ?_⟩
  · intro scopes p f hf
    apply resolve?_escaped h
    intro name hname
    exact h name (mem_mentionedNames_of_mem_fieldsAt hf hname)
  · intro f hf
    rw [Field.elementType, hf]
    exact scopedName_eq_intercalate f.typeName

/-- Reserved words as the names of a package, of a message in another one, and of an enumeration
in that. -/
def reservedThroughout : Schema where
  syntaxVersion := "proto3"
  package := "xor.v1"
  imports := []
  messages :=
    [⟨"Outer", 1,
      [.declare "class" "first" 1 false 2, .declare ".xor.v1.Outer.class.union" "second" 2 false 3],
      [⟨"class", 4, [], [], [⟨"union", 5, []⟩]⟩], []⟩]
  enums := []

theorem escaped_references_lead_alike_reservedThroughout :
    (∀ name ∈ reservedThroughout.mentionedNames, ¬ IsEscaped name) ∧
      reservedThroughout.escaped.resolve? [[0]] (safeReference "class") =
        some (.message [[0]] [0, 0]) ∧
      reservedThroughout.escaped.resolve? [[0]] (safeReference ".xor.v1.Outer.class.union") =
        some .enum := by
  have hnames : ∀ name ∈ reservedThroughout.mentionedNames, ¬ IsEscaped name := by
    decide +kernel
  obtain ⟨hreferences, -⟩ := escaped_references_lead_alike hnames
  refine ⟨hnames, ?_, ?_⟩
  · have hfirst := hreferences [[0]] [0] (.declare "class" "first" 1 false 2) (by decide +kernel)
    exact hfirst.trans (by decide +kernel)
  · have hsecond := hreferences [[0]] [0] (.declare ".xor.v1.Outer.class.union" "second" 2 false 3)
      (by decide +kernel)
    exact hsecond.trans (by decide +kernel)

end Schema

end ProtoHeader

import Mathlib.Data.List.Forall2
import Mathlib.Data.Option.Basic
import ProtoHeader.Proofs.EscapedNames
import ProtoHeader.Proofs.OpenElements
import ProtoHeader.Proofs.TargetTypes

/-!
# Legal names

A header spells what it declares, and what it refers to, with legal names only: the grammars of
declarations and of references read nothing else, and reserved words are escaped.  The grammar of
the package reads more.  So the scope of a header is made of legal names exactly if the segments of
the package are names.

Main statement: `names_legal_iff_package_segments`.
-/

namespace ProtoHeader

namespace Text

theorem mem_of_mem_splitOn {cs piece : List Char} {mark c : Char} (h : piece ∈ cs.splitOn mark)
    (hc : c ∈ piece) : c ∈ cs := by
  induction cs generalizing piece with
  | nil =>
      obtain rfl : piece = [] := by simpa using h
      exact hc
  | cons d cs ih =>
      rw [List.splitOn_cons_eq_if_modifyHead] at h
      cases hsplit : cs.splitOn mark with
      | nil => exact absurd hsplit (List.splitOn_ne_nil mark cs)
      | cons first rest =>
          rw [hsplit] at h ih
          split at h
          · rcases List.mem_cons.mp h with rfl | h
            · simp at hc
            · exact List.mem_cons_of_mem d (ih h hc)
          · rcases List.mem_cons.mp h with rfl | h
            · rcases List.mem_cons.mp hc with rfl | hc
              · exact List.mem_cons_self
              · exact List.mem_cons_of_mem d (ih List.mem_cons_self hc)
            · exact List.mem_cons_of_mem d (ih (List.mem_cons_of_mem first h) hc)

theorem mem_of_mem_segments {t name : String} (h : name ∈ segments t) {c : Char}
    (hc : c ∈ name.toList) : c ∈ t.toList := by
  obtain ⟨piece, hpiece, rfl⟩ := List.mem_map.mp h
  rw [String.toList_ofList] at hc
  exact mem_of_mem_splitOn hpiece hc

end Text

theorem Grammar.isName_concat_underscore {cs : List Char} (h : isName cs = true) :
    isName (cs ++ ['_']) = true := by
  cases cs with
  | nil => cases h
  | cons c cs =>
      obtain ⟨hstart, hrest⟩ := Bool.and_eq_true_iff.mp h
      have hunderscore : Text.isWordChar '_' = true := by decide
      simp [isName, hstart, hrest, hunderscore]

namespace Header

/-- A name as the grammar reads it, and not a reserved word. -/
def LegalName (name : String) : Prop :=
  Grammar.isName name.toList = true ∧ name ∉ reservedWords

theorem isName_of_mem_reservedWords :
    ∀ word ∈ reservedWords, Grammar.isName word.toList = true := by
  decide +kernel

/-- Escaping makes a name legal, and makes no name of what is none. -/
theorem legalName_safeName_iff (name : String) :
    LegalName (safeName name) ↔ Grammar.isName name.toList = true := by
  have hunderscore : "_".toList = ['_'] := by decide
  rw [LegalName, and_iff_left (safeName_notMem name)]
  by_cases h : name ∈ reservedWords
  · have hname := isName_of_mem_reservedWords name h
    rw [safeName, if_pos h, String.toList_append, hunderscore]
    exact iff_of_true (Grammar.isName_concat_underscore hname) hname
  · rw [safeName, if_neg h]

/-! ## Guards -/

/-- A capital or an underscore, then capitals, digits and underscores. -/
def IsMacroName (t : String) : Prop :=
  ∃ c cs, t.toList = c :: cs ∧ (c.isUpper = true ∨ c = '_') ∧
    ∀ d ∈ cs, d.isUpper = true ∨ d.isDigit = true ∨ d = '_'

theorem macroChar_cases (c : Char) :
    (macroChar c).isUpper = true ∨ (macroChar c).isDigit = true ∨ macroChar c = '_' := by
  unfold macroChar
  delta Char.isAlphanum Char.isAlpha Char.isLower Char.isUpper Char.isDigit Char.toUpper
  grind

theorem isMacroName_guardName (stem : String) : IsMacroName (guardName stem) := by
  have hsuffix : "_H".toList = ['_', 'H'] := by decide
  have hall (cs : List Char) : ∀ d ∈ cs.map macroChar ++ ['_', 'H'],
      d.isUpper = true ∨ d.isDigit = true ∨ d = '_' := by
    intro d hd
    rcases List.mem_append.mp hd with hd | hd
    · obtain ⟨c, -, rfl⟩ := List.mem_map.mp hd
      exact macroChar_cases c
    · rcases List.mem_pair.mp hd with rfl | rfl
      · exact .inr (.inr rfl)
      · exact .inl rfl
  rw [IsMacroName, guardName, String.toList_append, macroName, hsuffix]
  cases stem.toList with
  | nil => exact ⟨'_', ['H'], rfl, .inr rfl, fun d hd ↦ hall [] d (List.mem_cons_of_mem '_' hd)⟩
  | cons c rest =>
      simp only [List.map_cons, String.toList_ofList]
      split
      · exact ⟨'_', (c :: rest).map macroChar ++ ['_', 'H'], rfl, .inr rfl, hall (c :: rest)⟩
      · next hdigit =>
          refine ⟨macroChar c, rest.map macroChar ++ ['_', 'H'], rfl, ?_, hall rest⟩
          exact (macroChar_cases c).imp_right fun h ↦ h.resolve_left hdigit

/-! ## Scoped names -/

/-- The parts of a text between its double colons. -/
def splitColons : List Char → List (List Char)
  | [] => [[]]
  | ':' :: ':' :: cs => [] :: splitColons cs
  | c :: cs => (splitColons cs).modifyHead (c :: ·)

/-- The segments of a scoped name. -/
def scopeSegments (t : String) : List String :=
  (splitColons t.toList).map String.ofList

theorem splitColons_cons {c : Char} (h : c ≠ ':') (cs : List Char) :
    splitColons (c :: cs) = (splitColons cs).modifyHead (c :: ·) := by
  rw [splitColons.eq_def]
  grind

theorem splitColons_append {segment : List Char} (h : ':' ∉ segment) (rest : List Char) :
    splitColons (segment ++ ':' :: ':' :: rest) = segment :: splitColons rest := by
  induction segment with
  | nil => rfl
  | cons c segment ih =>
      obtain ⟨hc, hsegment⟩ := List.ne_and_not_mem_of_not_mem_cons h
      rw [List.cons_append, splitColons_cons (Ne.symm hc), ih hsegment, List.modifyHead_cons]

theorem splitColons_eq_singleton {segment : List Char} (h : ':' ∉ segment) :
    splitColons segment = [segment] := by
  induction segment with
  | nil => rfl
  | cons c segment ih =>
      obtain ⟨hc, hsegment⟩ := List.ne_and_not_mem_of_not_mem_cons h
      rw [splitColons_cons (Ne.symm hc), ih hsegment, List.modifyHead_cons]

theorem splitColons_intercalate {segments : List (List Char)} (hne : segments ≠ [])
    (h : ∀ segment ∈ segments, ':' ∉ segment) :
    splitColons ([':', ':'].intercalate segments) = segments := by
  induction segments with
  | nil => exact absurd rfl hne
  | cons first rest ih =>
      obtain ⟨hfirst, hrest⟩ := List.forall_mem_cons.mp h
      cases rest with
      | nil => simpa using splitColons_eq_singleton hfirst
      | cons next rest =>
          rw [List.intercalate_cons_cons, List.append_assoc]
          exact (splitColons_append hfirst _).trans
            (congrArg (first :: ·) (ih (List.cons_ne_nil next rest) hrest))

theorem scopeSegments_scopedName {dotted : String}
    (h : ∀ segment ∈ Text.segments dotted, ':' ∉ segment.toList) :
    scopeSegments (scopedName dotted) = (Text.segments dotted).map safeName := by
  have hcolons : "::".toList = [':', ':'] := by decide
  rw [scopeSegments, scopedName, String.toList_intercalate, hcolons, splitColons_intercalate]
  · simp [Function.comp_def]
  · simpa using Text.segments_ne_nil dotted
  · intro cs hcs
    simp only [List.map_map, List.mem_map, Function.comp_def] at hcs
    obtain ⟨segment, hsegment, rfl⟩ := hcs
    unfold safeName
    split
    · simpa using h segment hsegment
    · exact h segment hsegment

theorem isWordChar_of_mem_of_isName {cs : List Char} (h : Grammar.isName cs = true) {c : Char}
    (hc : c ∈ cs) : Text.isWordChar c = true := by
  cases cs with
  | nil => simp at hc
  | cons first rest =>
      obtain ⟨hstart, hrest⟩ := Bool.and_eq_true_iff.mp h
      rcases List.mem_cons.mp hc with rfl | hc
      · exact Text.isWordChar_of_isNameStart hstart
      · exact List.all_eq_true.mp hrest c hc

theorem colon_notMem_of_isName {cs : List Char} (h : Grammar.isName cs = true) : ':' ∉ cs :=
  fun hcolon ↦ absurd (isWordChar_of_mem_of_isName h hcolon) (by decide)

/-- The segments are legal names, apart from an empty one in front of the others. -/
def LegalReference (t : String) : Prop :=
  ∃ names, names ≠ [] ∧ (∀ name ∈ names, LegalName name) ∧
    (scopeSegments t = names ∨ scopeSegments t = "" :: names)

/-- What the grammar reads as a reference is a name after a name, perhaps after an empty one. -/
theorem segments_of_isReference {dotted : String}
    (h : Grammar.isReference dotted.toList = true) :
    ∃ names, names ≠ [] ∧ (∀ name ∈ names, Grammar.isName name.toList = true) ∧
      (Text.segments dotted = names ∨ Text.segments dotted = "" :: names) := by
  have hnames {pieces : List (List Char)} (hall : pieces.all Grammar.isName = true) :
      ∀ name ∈ pieces.map String.ofList, Grammar.isName name.toList = true := by
    simpa using hall
  unfold Grammar.isReference at h
  rw [Text.segments]
  cases hsplit : dotted.toList.splitOn '.' with
  | nil => exact absurd hsplit (List.splitOn_ne_nil '.' dotted.toList)
  | cons first rest =>
      rw [hsplit] at h
      cases first with
      | nil =>
          obtain ⟨hne, hall⟩ := Bool.and_eq_true_iff.mp h
          refine ⟨rest.map String.ofList, ?_, hnames hall, .inr rfl⟩
          simpa using hne
      | cons c cs =>
          exact ⟨((c :: cs) :: rest).map String.ofList, by simp, hnames h, .inl rfl⟩

theorem legalReference_scopedName {dotted : String}
    (h : Grammar.isReference dotted.toList = true) : LegalReference (scopedName dotted) := by
  obtain ⟨names, hne, hnames, hsegments⟩ := segments_of_isReference h
  have hcolon : ∀ segment ∈ Text.segments dotted, ':' ∉ segment.toList := by
    intro segment hsegment
    have hname : segment = "" ∨ segment ∈ names := by
      rcases hsegments with hsegments | hsegments
      · exact .inr (hsegments ▸ hsegment)
      · exact List.mem_cons.mp (hsegments ▸ hsegment)
    rcases hname with rfl | hname
    · simp
    · exact colon_notMem_of_isName (hnames segment hname)
  refine ⟨names.map safeName, by simpa using hne, ?_, ?_⟩
  · intro name hname
    obtain ⟨original, horiginal, rfl⟩ := List.mem_map.mp hname
    exact (legalName_safeName_iff original).mpr (hnames original horiginal)
  · rw [scopeSegments_scopedName hcolon]
    rcases hsegments with hsegments | hsegments
    · exact .inl (by rw [hsegments])
    · refine .inr ?_
      rw [hsegments, List.map_cons, (safeName_eq_empty_iff "").mpr rfl]

end Header

/-! ## Names that are read -/

namespace Grammar

theorem isName_of_declaredName? {keyword name : String} {cs : List Char}
    (h : declaredName? keyword cs = some name) : isName name.toList = true := by
  obtain ⟨_, -, h⟩ := Option.bind_eq_some_iff.mp h
  obtain ⟨_, -, h⟩ := Option.bind_eq_some_iff.mp h
  obtain ⟨⟨read, rest⟩, hread, h⟩ := Option.bind_eq_some_iff.mp h
  cases h
  rw [String.toList_ofList]
  exact isName_of_name? hread

theorem isName_of_unlabelled? {label : Option Label} {cs : List Char} {parts : FieldParts}
    (h : unlabelled? label cs = some parts) :
    isName parts.name = true ∧ isReference parts.typeName = true := by
  obtain ⟨_, hreference, h⟩ := Option.bind_eq_some_iff.mp h
  obtain ⟨_, -, h⟩ := Option.bind_eq_some_iff.mp h
  obtain ⟨⟨read, rest⟩, hread, h⟩ := Option.bind_eq_some_iff.mp h
  obtain ⟨_, -, h⟩ := Option.bind_eq_some_iff.mp h
  obtain ⟨_, -, h⟩ := Option.bind_eq_some_iff.mp h
  obtain ⟨_, -, h⟩ := Option.bind_eq_some_iff.mp h
  obtain ⟨_, -, h⟩ := Option.bind_eq_some_iff.mp h
  cases h
  exact ⟨isName_of_name? hread, by simpa [Option.guard_eq_some'] using hreference⟩

theorem isName_of_fieldParts? {cs : List Char} {parts : FieldParts}
    (h : fieldParts? cs = some parts) :
    isName parts.name = true ∧ isReference parts.typeName = true := by
  have hlabelled {label : Label} (h : labelled? label cs = some parts) :
      isName parts.name = true ∧ isReference parts.typeName = true := by
    obtain ⟨_, -, h⟩ := Option.bind_eq_some_iff.mp h
    obtain ⟨_, -, h⟩ := Option.bind_eq_some_iff.mp h
    exact isName_of_unlabelled? h
  unfold fieldParts? at h
  rcases (Option.orElse_eq_some _ _ _).mp h with h | ⟨-, h⟩
  · exact hlabelled h
  · rcases (Option.orElse_eq_some _ _ _).mp h with h | ⟨-, h⟩
    · exact hlabelled h
    · exact isName_of_unlabelled? h

theorem isName_of_enumeratorParts? {cs : List Char} {parts : EnumeratorParts}
    (h : enumeratorParts? cs = some parts) : isName parts.name = true := by
  obtain ⟨⟨read, rest⟩, hread, h⟩ := Option.bind_eq_some_iff.mp h
  obtain ⟨_, -, h⟩ := Option.bind_eq_some_iff.mp h
  obtain ⟨_, -, h⟩ := Option.bind_eq_some_iff.mp h
  cases h
  exact isName_of_name? hread

/-- The package is made of word characters and dots, and nothing is said of its segments. -/
theorem colon_notMem_of_package? {cs : List Char} {package : String}
    (h : package? cs = some package) : ':' ∉ package.toList := by
  obtain ⟨_, -, h⟩ := Option.bind_eq_some_iff.mp h
  obtain ⟨cs', -, h⟩ := Option.bind_eq_some_iff.mp h
  obtain ⟨_, -, h⟩ := Option.bind_eq_some_iff.mp h
  obtain ⟨_, -, h⟩ := Option.bind_eq_some_iff.mp h
  obtain ⟨_, -, h⟩ := Option.bind_eq_some_iff.mp h
  cases h
  rw [String.toList_ofList]
  intro hcolon
  exact absurd (List.all_eq_true.mp List.all_takeWhile ':' hcolon) (by decide)

end Grammar

namespace Element

/-- The element is called by a name, and if it is a field, then its type is read as a reference. -/
def Named : Element → Prop
  | top _ => True
  | message m => Grammar.isName m.name.toList = true
  | field f =>
    Grammar.isName f.name.toList = true ∧ Grammar.isReference f.typeName.toList = true
  | enum e => Grammar.isName e.name.toList = true
  | enumerator v => Grammar.isName v.name.toList = true

theorem named_of_capturedFrom {x : Element} {l : Source.Line} (h : x.CapturedFrom l) :
    x.Named := by
  cases x with
  | top scope => exact trivial
  | message m => exact Grammar.isName_of_declaredName? h.2
  | field f =>
      obtain ⟨parts, hparts, htype, hname, -⟩ := h.parts
      rw [Named, htype, hname, String.toList_ofList, String.toList_ofList]
      exact Grammar.isName_of_fieldParts? hparts
  | enum e => exact Grammar.isName_of_declaredName? h.2
  | enumerator v =>
      obtain ⟨parts, hparts, hname, -⟩ := h.parts
      rw [Named, hname, String.toList_ofList]
      exact Grammar.isName_of_enumeratorParts? hparts

variable {P : Element → Prop} {m n : Message}

theorem Holds.descend? (hm : P (message m)) (h : (message m).Holds P) {p : Position}
    (hn : m.descend? p = some n) : P (message n) ∧ (message n).Holds P := by
  induction p generalizing m with
  | nil =>
      obtain rfl : m = n := Option.some.inj hn
      exact ⟨hm, h⟩
  | cons i rest ih =>
      obtain ⟨child, hchild, hn⟩ := Option.bind_eq_some_iff.mp hn
      obtain ⟨hown, hinner⟩ := h.of_mem .message (List.mem_map_of_mem (List.mem_of_getElem? hchild))
      exact ih hown hinner hn

end Element

theorem Schema.holds_of_messageAt? {P : Element → Prop} {s : Schema} (h : s.content.Holds P)
    {p : Position} {m : Message} (hm : s.messageAt? p = some m) :
    P (.message m) ∧ (Element.message m).Holds P := by
  cases p with
  | nil => cases hm
  | cons i rest =>
      obtain ⟨top, htop, hm⟩ := Option.bind_eq_some_iff.mp hm
      obtain ⟨hown, hinner⟩ := h.of_mem .message (List.mem_map_of_mem (List.mem_of_getElem? htop))
      exact hinner.descend? hown hm

theorem Schema.holds_named_of_parse {lines : List Source.Line} {s : Schema}
    (h : parse lines = .ok s) : s.content.Holds Element.Named := by
  intro a x ha hx
  obtain ⟨l, -, hcaptured⟩ := exists_captured h (elementAt?_eq_some_iff.mpr ⟨ha, hx⟩)
  exact Element.named_of_capturedFrom hcaptured

/-! ## Headers -/

namespace Header

structure LegalEnum (e : EnumClass) : Prop where
  name : LegalName e.name
  values : ∀ v ∈ e.values, LegalName v.name

/-- The member has a legal name and is declared with the type of the field, which refers to a
class or enumeration, if it does, by legal names. -/
structure LegalMember (f : Field) (m : Member) : Prop where
  name : LegalName m.name
  typeName : m.typeName = f.headerType
  reference : f.scalar? = none → LegalReference f.elementType

structure LegalClass (fields : List Field) (c : ClassDecl) : Prop where
  name : LegalName c.name
  enums : ∀ e ∈ c.enums, LegalEnum e
  members : List.Forall₂ LegalMember fields c.fields

/-- All names of the header are legal, at whatever depth, its scope left aside. -/
structure LegalDeclarations (h : Header) (s : Schema) : Prop where
  guard : IsMacroName h.guard
  enums : ∀ e ∈ h.enums, LegalEnum e
  classes : ∀ p c, h.classAt? p = some c → LegalClass (s.fieldsAt p) c

theorem legalEnum_enumClass {e : EnumDecl} (hname : (Element.enum e).Named)
    (hvalues : (Element.enum e).Holds Element.Named) : LegalEnum (enumClass e) where
  name := (legalName_safeName_iff e.name).mpr hname
  values v hv := by
    obtain ⟨original, horiginal, rfl⟩ := List.mem_map.mp hv
    have hnamed := hvalues.of_mem .enumerator (List.mem_map_of_mem horiginal)
    exact (legalName_safeName_iff original.name).mpr hnamed.1

theorem legalMember_annotate {f : Field} (h : (Element.field f).Named) :
    LegalMember f.annotate (member f.annotate) where
  name := (legalName_safeName_iff f.name).mpr h.1
  typeName := rfl
  reference hscalar := by
    have hreference : f.annotate.elementType = scopedName f.typeName := by
      rw [Field.elementType, hscalar]
      rfl
    rw [hreference]
    exact legalReference_scopedName h.2

theorem legalClass_classTree {m : Message} (hname : (Element.message m).Named)
    (h : (Element.message m).Holds Element.Named) (layoutOf : Position → Layout) (p : Position) :
    LegalClass (m.fields.map Field.annotate)
      (classTree layoutOf p (m.revise { field := Field.annotate })) := by
  obtain ⟨name, line, fields, messages, enums⟩ := m
  rw [Message.revise, classTree]
  refine ⟨(legalName_safeName_iff name).mpr hname, fun e he ↦ ?_, ?_⟩
  · obtain ⟨original, horiginal, rfl⟩ := List.mem_map.mp he
    rw [List.map_id_fun, id] at horiginal
    obtain ⟨hown, hvalues⟩ := h.of_mem .enum (List.mem_map_of_mem horiginal)
    exact legalEnum_enumClass hown hvalues
  · rw [List.forall₂_map_right_iff, List.forall₂_same]
    intro f hf
    obtain ⟨original, horiginal, rfl⟩ := List.mem_map.mp hf
    exact legalMember_annotate (h.of_mem .field (List.mem_map_of_mem horiginal)).1

theorem legalDeclarations_annotate {s : Schema} (h : s.content.Holds Element.Named)
    (options : Options) : (s.annotate.header options).LegalDeclarations s.annotate where
  guard := isMacroName_guardName _
  enums e he := by
    obtain ⟨original, horiginal, rfl⟩ := List.mem_map.mp he
    obtain ⟨hown, hvalues⟩ := h.of_mem .enum (List.mem_map_of_mem horiginal)
    exact legalEnum_enumClass hown hvalues
  classes p c hc := by
    rw [Schema.header_classAt?, Schema.annotate_eq_revise, Schema.messageAt?_revise,
      Option.map_map, Option.map_eq_some_iff] at hc
    obtain ⟨m, hm, rfl⟩ := hc
    obtain ⟨hown, hinner⟩ := Schema.holds_of_messageAt? h hm
    have hfields : s.annotate.fieldsAt p = m.fields.map Field.annotate := by
      rw [Schema.annotate_eq_revise, Schema.fieldsAt_revise, Schema.fieldsAt, hm]
      rfl
    rw [hfields]
    exact legalClass_classTree hown hinner _ p

/-- If a dotted name has no colons, then its scoped form is made of legal names exactly if the
segments are names. -/
theorem forall_legalName_scopedName_iff {dotted : String} (h : ':' ∉ dotted.toList) :
    (∀ name ∈ scopeSegments (scopedName dotted), LegalName name) ↔
      ∀ name ∈ Text.segments dotted, Grammar.isName name.toList = true := by
  rw [scopeSegments_scopedName fun segment hsegment hcolon ↦
    h (Text.mem_of_mem_segments hsegment hcolon)]
  simp only [List.forall_mem_map, legalName_safeName_iff]

end Header

theorem Schema.exists_package?_of_findPackage {lines : List Source.Line} {i : ℕ} {package : String}
    (h : findPackage lines = .ok (i, package)) :
    ∃ l ∈ lines, Grammar.package? l.text.toList = some package := by
  unfold findPackage at h
  split at h
  · cases h
  · next found hfound =>
      cases h
      obtain ⟨⟨l, j⟩, hl, hread⟩ := List.exists_of_findSome?_eq_some hfound
      obtain ⟨name, hname, heq⟩ := Option.map_eq_some_iff.mp hread
      cases heq
      exact ⟨l, List.fst_mem_of_mem_zipIdx hl, hname⟩

/-- Every name in the header of a compiled text is legal, but for those of the scope, which are
legal exactly if the segments of the package are names. -/
theorem names_legal_iff_package_segments {text : String} {s : Schema}
    (h : compileSchema text = .ok s) (options : Header.Options) :
    (s.header options).LegalDeclarations s ∧
      ((∀ name ∈ Header.scopeSegments (s.header options).scope, Header.LegalName name) ↔
        ∀ name ∈ Text.segments s.package, Grammar.isName name.toList = true) := by
  obtain ⟨t, ht, h⟩ := exists_of_bind_ok h
  cases h
  refine ⟨Header.legalDeclarations_annotate (Schema.holds_named_of_parse ht) options, ?_⟩
  obtain ⟨_, i, _, -, hpackage, -⟩ := Schema.exists_steps_of_parse ht
  obtain ⟨l, -, hl⟩ := Schema.exists_package?_of_findPackage hpackage
  exact Header.forall_legalName_scopedName_iff (Grammar.colon_notMem_of_package? hl)

/-- A package with an empty segment. -/
def gapText : String :=
  "syntax = \"proto3\"; package a..b;"

theorem names_legal_iff_package_segments_gap :
    ∃ s, compileSchema gapText = .ok s ∧ ∀ options,
      (s.header options).LegalDeclarations s ∧
        ¬∀ name ∈ Header.scopeSegments (s.header options).scope, Header.LegalName name := by
  have hpackage : (compileSchema gapText).toOption.map (·.package) = some "a..b" := by
    decide +kernel
  cases hcompile : compileSchema gapText with
  | error fault => simp [hcompile, Except.toOption] at hpackage
  | ok s =>
      have hgap : s.package = "a..b" := by simpa [hcompile, Except.toOption] using hpackage
      refine ⟨s, rfl, fun options ↦ ?_⟩
      obtain ⟨hlegal, hscope⟩ := names_legal_iff_package_segments hcompile options
      refine ⟨hlegal, fun hall ↦ ?_⟩
      have hsegments := hscope.mp hall
      rw [hgap] at hsegments
      exact absurd hsegments (by decide +kernel)

end ProtoHeader

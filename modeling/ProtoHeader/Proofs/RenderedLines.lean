import ProtoHeader.Proofs.EmbeddedFragments
import ProtoHeader.Proofs.Numerals

/-!
# Lines of a rendered class

A class is rendered by operations that return to the depth they started at, so its lines are those
of its parts one after the other.  Where names and types hold no line breaks, the lines of a nested
declaration are found again in the text that it was rendered to.
-/

namespace ProtoHeader

open Text

namespace Writer

/-! ## Operations that return to their depth -/

/-- At every depth the operations write the given lines and end where they started. -/
def Writes (ops : List Op) (lines : List String) : Prop :=
  ∀ depth, run defaultUnit depth ops = (lines.map (indented defaultUnit depth), depth)

/-- A line one level deeper. -/
def inside (line : String) : String :=
  indented defaultUnit 1 line

theorem indented_inside (depth : ℕ) (line : String) :
    indented defaultUnit depth (inside line) = indented defaultUnit (depth + 1) line :=
  indented_indented defaultUnit depth 1 line

namespace Writes

theorem nil : Writes [] [] := fun _ ↦ rfl

theorem line (text : String) : Writes [.line text] [text] := fun _ ↦ rfl

theorem blank : Writes [.blank] [""] := fun _ ↦ rfl

theorem fragment (text : String) : Writes [.fragment text] (Text.lines text) := by
  intro depth
  simp [run, Op.run]

theorem append {ops more : List Op} {lines lines' : List String} (h : Writes ops lines)
    (h' : Writes more lines') : Writes (ops ++ more) (lines ++ lines') := by
  intro depth
  rw [run_append, h depth, h' depth, List.map_append]

theorem cons {op : Op} {ops : List Op} {first rest : List String} (h : Writes [op] first)
    (h' : Writes ops rest) : Writes (op :: ops) (first ++ rest) :=
  h.append h'

theorem map_line {α : Type} (text : α → String) (xs : List α) :
    Writes (xs.map fun x ↦ .line (text x)) (xs.map text) := by
  intro depth
  rw [Header.run_lines, List.map_map]
  rfl

theorem intercalate {α : Type} {ops : α → List Op} {lines : α → List String}
    (h : ∀ x, Writes (ops x) (lines x)) (xs : List α) :
    Writes ([Op.blank].intercalate (xs.map ops)) ([""].intercalate (xs.map lines)) := by
  induction xs with
  | nil => exact nil
  | cons x xs ih =>
      cases xs with
      | nil => simpa using h x
      | cons y ys =>
          simp only [List.map_cons, List.intercalate_cons_cons] at ih ⊢
          exact ((h x).append blank).append ih

theorem write_eq {ops : List Op} {lines : List String} (h : Writes ops lines) :
    write defaultUnit ops = finish lines := by
  have hmargin : indented defaultUnit 0 = id := funext (Header.indented_zero defaultUnit)
  rw [write, h 0, hmargin, List.map_id]

end Writes

end Writer

open Writer

/-! ## Parts of a class -/

namespace Header

/-- The lines of a part of a class with its own access specifier. -/
def partLines (access : String) (body : List String) : List String :=
  "" :: (access ++ ":") :: body.map inside

/-- The first lines of a class, up to its destructor. -/
def headingLines (name : String) : List String :=
  ["class " ++ name ++ " \x7b", "public:", inside (name ++ "() = default;"),
   inside ("~" ++ name ++ "() = default;")]

/-- The lines of nested declarations, each of which is given by its own lines. -/
def nestedLines (blocks : List (List String)) : List String :=
  if blocks.isEmpty then [] else partLines "public" ([""].intercalate blocks)

def parsingLines : List String :=
  partLines "public" ["void parseFromStream(std::vector<uint8_t>& stream);"]

def accessorTexts (f : Member) : List String :=
  ["[[nodiscard]] const " ++ f.typeName ++ "& get_" ++ f.name ++ "() const;",
   "void set_" ++ f.name ++ "(" ++ f.typeName ++ " value);"]

/-- The declaration of a data member. -/
def memberText (f : Member) : String :=
  f.typeName ++ " " ++ f.name ++ ";"

def fieldLines (fields : List Member) : List String :=
  if fields.isEmpty then []
  else partLines "public" ([""].intercalate (fields.map accessorTexts)) ++
    partLines "private" (fields.map memberText)

def offsetLines (offsets : List ℕ) : List String :=
  partLines "private" [offsetTable offsets]

/-- The lines of a class before the one that closes it. -/
def classBody (name : String) (blocks : List (List String)) (fields : List Member)
    (offsets : List ℕ) : List String :=
  headingLines name ++ nestedLines blocks ++ parsingLines ++ fieldLines fields ++
    offsetLines offsets

theorem writes_accessPart {body : List Op} {lines : List String} (h : Writes body lines)
    (access : String) : Writes (accessPart access body) (partLines access lines) := by
  intro depth
  simp [accessPart, partLines, run, run_append, Op.run, h (depth + 1), Function.comp_def,
    indented_inside, indented_empty]

theorem writes_nested (texts : List String) :
    Writes (if texts.isEmpty then [] else accessPart "public" (fragments texts))
      (nestedLines (texts.map Text.lines)) := by
  by_cases hempty : texts = []
  · subst hempty
    exact Writes.nil
  · have hfragments : Writes (fragments texts) ([""].intercalate (texts.map Text.lines)) :=
      Writes.intercalate Writes.fragment texts
    simpa [hempty, nestedLines] using writes_accessPart hfragments "public"

theorem writes_fields (fields : List Member) :
    Writes (if fields.isEmpty then [] else
        accessPart "public" ([Op.blank].intercalate (fields.map accessors)) ++
        accessPart "private" (fields.map fun f ↦ .line (f.typeName ++ " " ++ f.name ++ ";")))
      (fieldLines fields) := by
  by_cases hempty : fields = []
  · subst hempty
    exact Writes.nil
  · have haccessors (f : Member) : Writes (accessors f) (accessorTexts f) :=
      (Writes.line _).cons (Writes.line _)
    have hpublic := writes_accessPart (Writes.intercalate haccessors fields) "public"
    have hprivate := writes_accessPart (Writes.map_line memberText fields) "private"
    have hsome : ¬fields.isEmpty = true := by simpa using hempty
    rw [fieldLines, if_neg hsome, if_neg hsome]
    exact hpublic.append hprivate

theorem writes_heading (name : String) :
    Writes [.line ("class " ++ name ++ " \x7b"), .line "public:", .indent,
      .line (name ++ "() = default;"), .line ("~" ++ name ++ "() = default;"), .dedent]
      (headingLines name) := by
  intro depth
  simp [run, Op.run, headingLines, indented_inside]

theorem writes_classProgram (name : String) (nested : List String) (fields : List Member)
    (offsets : List ℕ) :
    Writes (classProgram name nested fields offsets)
      (classBody name (nested.map Text.lines) fields offsets ++ ["\x7d;"]) :=
  (((((writes_heading name).append (writes_nested nested)).append
    (writes_accessPart (Writes.line _) "public")).append (writes_fields fields)).append
      (writes_accessPart (Writes.line _) "private")).append (Writes.line _)

end Header

/-! ## Rendered declarations -/

/-- The lines of an enumeration before the one that closes it. -/
def EnumClass.body (e : EnumClass) : List String :=
  ("enum class " ++ e.name ++ " \x7b") ::
    e.values.map fun v ↦ Header.constantLine v.name v.value.repr

theorem EnumClass.render_eq_finish (e : EnumClass) : e.render = finish (e.body ++ ["\x7d;"]) :=
  Header.render_enumClass e.name e.values

namespace ClassDecl

theorem renderAll_eq_map (cs : List ClassDecl) : renderAll cs = cs.map render := by
  induction cs with
  | nil => rfl
  | cons c cs ih => rw [renderAll, ih, List.map_cons]

/-- The declarations nested in a class, each given by its lines. -/
def blocks (c : ClassDecl) : List (List String) :=
  (c.enums.map fun e ↦ Text.lines e.render) ++ c.classes.map fun d ↦ Text.lines d.render

/-- The lines of a class before the one that closes it. -/
def body (c : ClassDecl) : List String :=
  Header.classBody c.name c.blocks c.fields c.offsets

theorem render_eq_finish (c : ClassDecl) : c.render = finish (c.body ++ ["\x7d;"]) := by
  obtain ⟨name, enums, classes, fields, offsets, size, align⟩ := c
  rw [render, (Header.writes_classProgram _ _ _ _).write_eq, body, blocks, renderAll_eq_map,
    List.map_append, List.map_map, List.map_map]
  rfl

end ClassDecl

/-! ## Lines without breaks -/

namespace Text

/-- The text holds neither line feeds nor carriage returns. -/
def Unbroken (text : String) : Prop :=
  '\n' ∉ text.toList ∧ '\r' ∉ text.toList

instance (text : String) : Decidable (Unbroken text) :=
  inferInstanceAs (Decidable (_ ∧ _))

theorem Unbroken.isLine {text : String} (h : Unbroken text) : IsLine text :=
  ⟨h.1, fun hlast ↦ h.2 (List.mem_of_getLast? hlast)⟩

theorem unbroken_append {s t : String} : Unbroken (s ++ t) ↔ Unbroken s ∧ Unbroken t := by
  simp only [Unbroken, String.toList_append, List.mem_append, not_or]
  grind

theorem unbroken_of_forall {text : String} (h : ∀ c ∈ text.toList, isBlank c = false) :
    Unbroken text :=
  ⟨fun hc ↦ absurd (h _ hc) (by decide), fun hc ↦ absurd (h _ hc) (by decide)⟩

theorem unbroken_natRepr (n : ℕ) : Unbroken n.repr := by
  apply unbroken_of_forall
  intro c hc
  rw [Nat.toList_repr] at hc
  exact isBlank_of_word (word_of_mem_toDigits hc)

theorem unbroken_intRepr (v : ℤ) : Unbroken v.repr := by
  cases v with
  | ofNat n => exact unbroken_natRepr n
  | negSucc n => exact unbroken_append.2 ⟨by decide, unbroken_natRepr (n + 1)⟩

theorem unbroken_intercalate {sep : String} (hsep : Unbroken sep) {parts : List String}
    (h : ∀ part ∈ parts, Unbroken part) : Unbroken (sep.intercalate parts) := by
  have hpart (c : Char) (hc : c ∈ (sep.intercalate parts).toList) :
      c ∈ sep.toList ∨ ∃ part ∈ parts, c ∈ part.toList := by
    rw [String.toList_intercalate] at hc
    simpa using mem_intercalate hc
  constructor
  · intro hc
    obtain hc | ⟨part, hpart, hc⟩ := hpart _ hc
    · exact hsep.1 hc
    · exact (h part hpart).1 hc
  · intro hc
    obtain hc | ⟨part, hpart, hc⟩ := hpart _ hc
    · exact hsep.2 hc
    · exact (h part hpart).2 hc

theorem unbroken_inside {line : String} (h : Unbroken line) : Unbroken (inside line) := by
  by_cases hempty : line = ""
  · subst hempty
    exact h
  · rw [inside, indented_of_ne_empty _ _ hempty, unbroken_append]
    exact ⟨by decide, h⟩

end Text

namespace Header

theorem unbroken_partLines {access : String} (haccess : Unbroken access) {body : List String}
    (h : ∀ l ∈ body, Unbroken l) : ∀ l ∈ partLines access body, Unbroken l := by
  rw [partLines, List.forall_mem_cons, List.forall_mem_cons, List.forall_mem_map]
  exact ⟨by decide, unbroken_append.2 ⟨haccess, by decide⟩, fun l hl ↦ unbroken_inside (h l hl)⟩

theorem unbroken_of_mem_intercalate {blocks : List (List String)}
    (h : ∀ b ∈ blocks, ∀ l ∈ b, Unbroken l) : ∀ l ∈ [""].intercalate blocks, Unbroken l := by
  intro l hl
  obtain hl | ⟨b, hb, hl⟩ := mem_intercalate hl
  · rw [List.mem_singleton.1 hl]
    decide
  · exact h b hb l hl

theorem unbroken_nestedLines {blocks : List (List String)}
    (h : ∀ b ∈ blocks, ∀ l ∈ b, Unbroken l) : ∀ l ∈ nestedLines blocks, Unbroken l := by
  unfold nestedLines
  split
  · exact List.forall_mem_nil _
  · exact unbroken_partLines (by decide) (unbroken_of_mem_intercalate h)

theorem unbroken_fieldLines {fields : List Member}
    (h : ∀ f ∈ fields, Unbroken f.typeName ∧ Unbroken f.name) :
    ∀ l ∈ fieldLines fields, Unbroken l := by
  have haccessors : ∀ b ∈ fields.map accessorTexts, ∀ l ∈ b, Unbroken l := by
    intro b hb
    obtain ⟨f, hf, rfl⟩ := List.mem_map.1 hb
    obtain ⟨htype, hname⟩ := h f hf
    simp only [accessorTexts, List.forall_mem_cons, unbroken_append]
    refine ⟨?_, ?_, List.forall_mem_nil _⟩ <;> simp only [htype, hname, and_true] <;> decide
  have hmembers : ∀ l ∈ fields.map memberText, Unbroken l := by
    rw [List.forall_mem_map]
    intro f hf
    obtain ⟨htype, hname⟩ := h f hf
    simp only [memberText, unbroken_append, htype, hname, and_true]
    decide
  unfold fieldLines
  split
  · exact List.forall_mem_nil _
  · rw [List.forall_mem_append]
    exact ⟨unbroken_partLines (by decide) (unbroken_of_mem_intercalate haccessors),
      unbroken_partLines (by decide) hmembers⟩

theorem unbroken_offsetTable (offsets : List ℕ) : Unbroken (offsetTable offsets) := by
  have hnumbers : Unbroken (", ".intercalate (offsets.map Nat.repr)) :=
    unbroken_intercalate (by decide) (by simpa using fun n _ ↦ unbroken_natRepr n)
  -- the texts of the numbers are not opened any further
  unfold offsetTable
  generalize ", ".intercalate (offsets.map Nat.repr) = numbers at hnumbers
  have hlength := unbroken_natRepr offsets.length
  generalize offsets.length.repr = length at hlength
  simp only [unbroken_append, hlength, hnumbers, and_true]
  decide

theorem unbroken_classBody {name : String} (hname : Unbroken name) {blocks : List (List String)}
    (hblocks : ∀ b ∈ blocks, ∀ l ∈ b, Unbroken l) {fields : List Member}
    (hfields : ∀ f ∈ fields, Unbroken f.typeName ∧ Unbroken f.name) (offsets : List ℕ) :
    ∀ l ∈ classBody name blocks fields offsets, Unbroken l := by
  have hheading : ∀ l ∈ headingLines name, Unbroken l := by
    simp only [headingLines, List.forall_mem_cons]
    refine ⟨?_, by decide, unbroken_inside ?_, unbroken_inside ?_, List.forall_mem_nil _⟩ <;>
      simp only [unbroken_append, hname, and_true, true_and] <;> decide
  have hparsing : ∀ l ∈ parsingLines, Unbroken l :=
    unbroken_partLines (by decide) (by decide)
  have htable : ∀ l ∈ offsetLines offsets, Unbroken l :=
    unbroken_partLines (by decide) (by simpa using unbroken_offsetTable offsets)
  simp only [classBody, List.forall_mem_append]
  exact ⟨⟨⟨⟨hheading, unbroken_nestedLines hblocks⟩, hparsing⟩, unbroken_fieldLines hfields⟩,
    htable⟩

end Header

/-- A text that was finished from unbroken lines and a closing one has these lines. -/
theorem lines_finish_closed {text : String} {body : List String}
    (htext : text = finish (body ++ ["\x7d;"])) (h : ∀ l ∈ body, Unbroken l) :
    Text.lines text = body ++ ["\x7d;"] := by
  rw [htext]
  apply lines_finish (by simp)
  rw [List.forall_mem_append]
  exact ⟨fun l hl ↦ (h l hl).isLine, by decide⟩

theorem EnumClass.unbroken_body {e : EnumClass} (hname : Unbroken e.name)
    (hvalues : ∀ v ∈ e.values, Unbroken v.name) : ∀ l ∈ e.body, Unbroken l := by
  rw [body, List.forall_mem_cons, List.forall_mem_map]
  refine ⟨?_, fun v hv ↦ ?_⟩
  · simp only [unbroken_append, hname, and_true]
    decide
  · simp only [Header.constantLine, unbroken_append, hvalues v hv, unbroken_intRepr, and_true]
    decide

theorem EnumClass.lines_render {e : EnumClass} (h : ∀ l ∈ e.body, Unbroken l) :
    Text.lines e.render = e.body ++ ["\x7d;"] :=
  lines_finish_closed e.render_eq_finish h

theorem ClassDecl.lines_render {c : ClassDecl} (h : ∀ l ∈ c.body, Unbroken l) :
    Text.lines c.render = c.body ++ ["\x7d;"] :=
  lines_finish_closed c.render_eq_finish h

end ProtoHeader

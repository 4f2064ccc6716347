import ProtoHeader.Proofs.Reflow
import ProtoHeader.Proofs.Renumbering
import ProtoHeader.Proofs.TargetTypes

/-!
# Line numbers are only carried along

Reading a schema copies the numbers of its lines into the declarations and the faults, and never
looks at them.  To forget the numbers of the lines before reading is the same as to forget those in
the result, and a header says nothing about them.  So it does not matter how a text is broken into
lines around the ends of its statements.
-/

namespace ProtoHeader

open Source

/-! ## Forgetting line numbers -/

def Source.Line.unnumbered (l : Line) : Line :=
  l.renumbered fun _ ↦ 0

def unnumbering : Revision :=
  renumbering fun _ ↦ 0

def Schema.unnumbered (s : Schema) : Schema :=
  s.revise unnumbering

/-- A result without line numbers, where `forget` says what that means for a value. -/
def unnumberedResult {α β : Type} (forget : α → β) : Except Fault α → Except Fault β :=
  renumberedResult (fun _ ↦ 0) forget

theorem unnumberedResult_bind {α α' β β' : Type} {forget : α → α'} {forget' : β → β'}
    {next : α → Except Fault β} {next' : α' → Except Fault β'}
    (h : ∀ a, unnumberedResult forget' (next a) = next' (forget a)) (x : Except Fault α) :
    unnumberedResult forget' (x >>= next) = unnumberedResult forget x >>= next' :=
  renumberedResult_bind _ h x

namespace Progress

def unnumbered (p : Progress) : Progress :=
  p.renumbered fun _ ↦ 0

theorem steps_unnumbered (p : Progress) (lines : List Line) :
    unnumberedResult unnumbered (p.steps lines) =
      p.unnumbered.steps (lines.map Line.unnumbered) :=
  steps_renumbered _ p lines

theorem unnumbered_closeAll (p : Progress) : p.closeAll.unnumbered = p.unnumbered.closeAll :=
  renumbered_closeAll _ p

end Progress

/-! ## Schemas -/

theorem firstReading?_unnumbered {α : Type} {read? : Line → Option α} {forget : α → α}
    (h : ∀ l, read? l.unnumbered = (read? l).map forget) (lines : List Line) :
    firstReading? read? (lines.map Line.unnumbered) =
      (firstReading? read? lines).map (Prod.map id forget) := by
  rw [firstReading?, firstReading?, List.zipIdx_map, List.findSome?_map, List.map_findSome?]
  congr 1
  funext ⟨l, i⟩
  simp [h, Function.comp_def]

namespace Schema

theorem lastNumber_unnumbered (lines : List Line) :
    lastNumber (lines.map Line.unnumbered) = 0 := by
  rw [lastNumber, List.getLast?_map]
  cases lines.getLast? <;> rfl

theorem findVersion_unnumbered (lines : List Line) :
    unnumberedResult id (findVersion lines) = findVersion (lines.map Line.unnumbered) := by
  let versionOf? := fun l : Line ↦ (Grammar.version? l.text.toList).map (·, l.number)
  have hversion : ∀ l, versionOf? l.unnumbered =
      (versionOf? l).map fun found ↦ (found.1, 0) := by
    simp [versionOf?, Line.unnumbered, Line.renumbered, Function.comp_def]
  simp only [findVersion]
  rw [firstReading?_unnumbered hversion, lastNumber_unnumbered]
  cases firstReading? versionOf? lines with
  | none => rfl
  | some found =>
      obtain ⟨index, version, number⟩ := found
      cases version <;> rfl

theorem findPackage_unnumbered (lines : List Line) :
    unnumberedResult id (findPackage lines) = findPackage (lines.map Line.unnumbered) := by
  let packageOf? := fun l : Line ↦ Grammar.package? l.text.toList
  have hpackage : ∀ l, packageOf? l.unnumbered = (packageOf? l).map id := by
    simp [packageOf?, Line.unnumbered, Line.renumbered]
  rw [findPackage, findPackage, firstReading?_unnumbered hpackage, lastNumber_unnumbered]
  cases firstReading? packageOf? lines with
  | none => rfl
  | some found => rfl

theorem importsOf_unnumbered (lines : List Line) :
    importsOf (lines.map Line.unnumbered) = importsOf lines := by
  rw [importsOf, List.filterMap_map]
  rfl

/-- Reading lines without their numbers gives the schema, or the fault, without line numbers. -/
theorem parse_unnumbered (lines : List Line) :
    unnumberedResult unnumbered (parse lines) = parse (lines.map Line.unnumbered) := by
  rw [parse, parse, ← findVersion_unnumbered, ← findPackage_unnumbered, importsOf_unnumbered]
  apply unnumberedResult_bind
  intro versionIndex
  apply unnumberedResult_bind
  rintro ⟨packageIndex, package⟩
  simp only [id, ← List.map_drop]
  have hsteps := Progress.start.steps_unnumbered (lines.drop (max versionIndex packageIndex + 1))
  rw [show Progress.start.unnumbered = Progress.start from rfl] at hsteps
  rw [← hsteps]
  apply unnumberedResult_bind
  intro progress
  rw [← Progress.unnumbered_closeAll]
  apply congrArg Except.ok
  rw [unnumbered, revise, Message.reviseAll_eq_map]
  rfl

theorem unnumbered_annotate (s : Schema) : s.annotate.unnumbered = s.unnumbered.annotate := by
  rw [annotate_eq_revise, annotate_eq_revise, unnumbered, unnumbered, revise_revise, revise_revise]
  rfl

/-- A header says nothing about the lines that its schema comes from. -/
theorem header_unnumbered (s : Schema) (options : Header.Options) :
    s.unnumbered.header options = s.header options := by
  have hquiet : unnumbering.Quiet := by constructor <;> intro <;> rfl
  have hdefault : Revision.Quiet {} := by constructor <;> intro <;> rfl
  have hmember (f : Field) : Header.member (unnumbering.field f) = Header.member f := rfl
  have henum (e : EnumDecl) : Header.enumClass (unnumbering.enum e) = Header.enumClass e := by
    simp [Header.enumClass, unnumbering, renumbering, Enumerator.renumbered, Function.comp_def]
  rw [unnumbered, header_revise_congr hquiet hdefault hmember henum, revise_default]

end Schema

/-! ## Reflowed texts -/

theorem unnumbered_compileSchema (text : String) :
    unnumberedResult Schema.unnumbered (compileSchema text) =
      Schema.annotate <$> Schema.parse ((normalize text).map Line.unnumbered) := by
  rw [← Schema.parse_unnumbered, compileSchema, Schema.ofText]
  cases Schema.parse (normalize text) with
  | error fault => rfl
  | ok s => exact congrArg Except.ok s.unnumbered_annotate

theorem unnumbered_compileHeader (text : String) (options : Header.Options) :
    unnumberedResult id (compileHeader text options) =
      (·.headerText options) <$> unnumberedResult Schema.unnumbered (compileSchema text) := by
  rw [compileHeader, compileUnit]
  cases compileSchema text with
  | error fault => rfl
  | ok s =>
      apply congrArg Except.ok
      exact congrArg Header.render (s.header_unnumbered options).symm

theorem map_unnumbered_eq (lines : List Line) :
    lines.map Line.unnumbered = (lines.map (·.text)).map (⟨·, 0⟩) := by
  rw [List.map_map]
  rfl

open Relation in
/-- A reflowed text has the same schema but for line numbers, or fails in the same way on another
line, and its header is the same to the letter. -/
theorem reflowed_texts_compile_alike {text text' : String}
    (h : ReflTransGen Reflow text.toList text'.toList) :
    unnumberedResult Schema.unnumbered (compileSchema text) =
        unnumberedResult Schema.unnumbered (compileSchema text') ∧
      ∀ options : Header.Options,
        unnumberedResult id (compileHeader text options) =
          unnumberedResult id (compileHeader text' options) := by
  have hlines : (normalize text).map Line.unnumbered = (normalize text').map Line.unnumbered := by
    rw [map_unnumbered_eq, map_unnumbered_eq, map_text_normalize_of_reflow h]
  have hschema : unnumberedResult Schema.unnumbered (compileSchema text) =
      unnumberedResult Schema.unnumbered (compileSchema text') := by
    rw [unnumbered_compileSchema, unnumbered_compileSchema, hlines]
  refine ⟨hschema, fun options ↦ ?_⟩
  rw [unnumbered_compileHeader, unnumbered_compileHeader, hschema]

/-- A schema on two lines. -/
def denseText : String :=
  "syntax=\"proto3\";package p;\nmessage M\x7b\x7d"

/-- The same schema on four lines, one of which ends with a carriage return. -/
def looseText : String :=
  "syntax=\"proto3\";\npackage p;\r\nmessage M\x7b\t\n\x7d"

open Relation in
theorem reflow_denseText : ReflTransGen Reflow denseText.toList looseText.toList := by
  have hafter := @Reflow.after "syntax=\"proto3\"".toList ['\n']
    "package p;\nmessage M\x7b\x7d".toList ';' (.inl rfl) (by decide)
    (Text.forall_mem_of_all (by decide))
  have hreturn := @Reflow.carriageReturn "syntax=\"proto3\";\npackage p;".toList
    "message M\x7b\x7d".toList
  have hahead := @Reflow.ahead "syntax=\"proto3\";\npackage p;\r\nmessage M\x7b".toList
    ['\t', '\n'] [] (by decide +kernel) (Text.forall_mem_of_all (by decide))
  simp only [String.reduceToList, List.cons_append, List.nil_append] at hafter hreturn hahead
  simp only [denseText, looseText, String.reduceToList]
  exact ((ReflTransGen.single hafter).tail hreturn).tail hahead

theorem reflowed_texts_compile_alike_dense :
    (compileSchema denseText).isOk = true ∧
      unnumberedResult Schema.unnumbered (compileSchema denseText) =
        unnumberedResult Schema.unnumbered (compileSchema looseText) ∧
      ∀ options : Header.Options,
        unnumberedResult id (compileHeader denseText options) =
          unnumberedResult id (compileHeader looseText options) :=
  ⟨by decide +kernel, reflowed_texts_compile_alike reflow_denseText⟩

end ProtoHeader

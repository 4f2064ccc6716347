import Mathlib.Data.List.Forall2
import ProtoHeader.Compile
import ProtoHeader.Proofs.Respacing
import ProtoHeader.Proofs.UnrecognisedLines

/-!
# Lines with other gaps

Lines that differ in one gap are read alike.  What is read from them is the same, and so is every
fault, except that a declaration without a name is reported with the text of its line.  Faults are
therefore compared with each run of blanks in that text as one.
-/

namespace ProtoHeader

open Source Text Grammar

/-! ## Runs of blanks as one -/

namespace Text

def startsBlank (cs : List Char) : Bool :=
  cs.head?.any isBlank

/-- The text with one space for each run of blanks. -/
def squeeze : List Char → List Char
  | [] => []
  | c :: cs =>
    if isBlank c then if startsBlank cs then squeeze cs else ' ' :: squeeze cs
    else c :: squeeze cs

theorem squeeze_cons_blank {b : Char} (hb : isBlank b = true) (cs : List Char) :
    squeeze (b :: cs) = if startsBlank cs then squeeze cs else ' ' :: squeeze cs := by
  rw [squeeze, if_pos hb]

end Text

theorem Grammar.IsGap.squeeze_append {gap : List Char} (h : IsGap gap) (rest : List Char) :
    squeeze (gap ++ rest) = squeeze (' ' :: rest) := by
  obtain ⟨hne, hblank⟩ := h
  induction gap with
  | nil => exact absurd rfl hne
  | cons b gap ih =>
      obtain ⟨hb, hgap⟩ := List.forall_mem_cons.mp hblank
      have hspace : isBlank ' ' = true := by decide
      rw [List.cons_append, squeeze_cons_blank hb]
      cases gap with
      | nil => rw [List.nil_append, squeeze_cons_blank hspace]
      | cons b' gap =>
          have hb' : isBlank b' = true := hgap b' List.mem_cons_self
          simpa [startsBlank, hb'] using ih (List.cons_ne_nil _ _) hgap

theorem Grammar.Respaced.startsBlank_eq {quotes : ℕ} {cs cs' : List Char}
    (h : Respaced quotes cs cs') : startsBlank cs = startsBlank cs' := by
  obtain rfl | ⟨b, ds, b', ds', rfl, rfl, hb, hb', -⟩ | ⟨c, ds, ds', rfl, rfl, -⟩ := h.start_cases
  · rfl
  · simp [startsBlank, hb, hb']
  · rfl

theorem Grammar.Respaced.squeeze_eq {quotes : ℕ} {cs cs' : List Char}
    (h : Respaced quotes cs cs') : squeeze cs = squeeze cs' := by
  induction h with
  | same => rfl
  | gap _ first second rest => rw [first.squeeze_append, second.squeeze_append]
  | cons c tail ih => rw [squeeze, squeeze, ih, tail.startsBlank_eq]

/-- The fault with one space for each run of blanks in the line that it quotes. -/
def Fault.squeezed : Fault → Fault
  | .malformedDeclaration kind text line =>
    .malformedDeclaration kind (String.ofList (squeeze text.toList)) line
  | fault => fault

/-- The same result, or the same fault but for the runs of blanks in the line that it quotes. -/
def Alike {α : Type} (x y : Except Fault α) : Prop :=
  x.mapError Fault.squeezed = y.mapError Fault.squeezed

namespace Alike

variable {α β : Type} {x y : Except Fault α}

theorem of_eq (h : x = y) : Alike x y :=
  congrArg (Except.mapError Fault.squeezed) h

/-- Results that are alike have the same value, if any. -/
theorem toOption_eq (h : Alike x y) : x.toOption = y.toOption := by
  have hvalue (z : Except Fault α) : (z.mapError Fault.squeezed).toOption = z.toOption := by
    cases z <;> rfl
  rw [← hvalue x, h, hvalue y]

theorem bind (h : Alike x y) {f g : α → Except Fault β} (hfg : ∀ a, Alike (f a) (g a)) :
    Alike (x >>= f) (y >>= g) := by
  cases x with
  | error fault =>
      cases y with
      | error fault' => exact congrArg Except.error (Except.error.inj h)
      | ok b => exact nomatch h
  | ok a =>
      cases y with
      | error fault' => exact nomatch h
      | ok b =>
          obtain rfl := Except.ok.inj h
          exact hfg a

end Alike

/-! ## Steps -/

/-- The lines have the same number, and their texts differ in one gap at most. -/
structure Source.Line.Respaced (l l' : Line) : Prop where
  number : l.number = l'.number
  text : Grammar.Respaced 0 l.text.toList l'.text.toList

namespace Source.Line.Respaced

variable {l l' : Line}

theorem refl (l : Line) : l.Respaced l :=
  ⟨rfl, .same 0 _⟩

theorem closes_eq (h : l.Respaced l') : l.closes = l'.closes := by
  unfold closes
  rw [Bool.eq_iff_iff, beq_iff_eq, beq_iff_eq, h.text.head?_eq_close_iff]

theorem declKind?_eq (h : l.Respaced l') : Progress.declKind? l = Progress.declKind? l' := by
  unfold Progress.declKind? Line.keyword
  rw [h.text.firstWord_eq]

theorem fieldOfLine?_eq (h : l.Respaced l') : Field.ofLine? l = Field.ofLine? l' := by
  unfold Field.ofLine?
  rw [h.text.fieldParts?_eq, h.number]

theorem enumeratorOfLine?_eq (h : l.Respaced l') :
    Enumerator.ofLine? l = Enumerator.ofLine? l' := by
  unfold Enumerator.ofLine?
  rw [h.text.enumeratorParts?_eq, h.number]

theorem openDecl (h : l.Respaced l') (p : Progress) (kind : DeclKind) :
    Alike (p.openDecl kind l) (p.openDecl kind l') := by
  have hkeyword : ∀ w ∈ kind.keyword.toList, isBlank w = false ∧ isQuote w = false := by
    cases kind <;> exact forall_mem_of_all (by decide)
  unfold Progress.openDecl
  rw [h.text.declaredName?_eq hkeyword, h.number]
  cases declaredName? kind.keyword l'.text.toList with
  | none =>
      -- the fault quotes the line
      simp only [Alike, Except.mapError, Fault.squeezed, h.text.squeeze_eq]
  | some name => exact .of_eq rfl

theorem stepTop (h : l.Respaced l') (p : Progress) : Alike (p.stepTop l) (p.stepTop l') := by
  unfold Progress.stepTop
  rw [h.declKind?_eq]
  split
  · exact h.openDecl p .message
  · exact h.openDecl p .enum
  · exact .of_eq rfl

theorem stepMessage (h : l.Respaced l') (p : Progress) :
    Alike (p.stepMessage l) (p.stepMessage l') := by
  unfold Progress.stepMessage
  rw [h.closes_eq, h.declKind?_eq, h.fieldOfLine?_eq]
  split
  · exact .of_eq rfl
  · split
    · next kind _ => exact h.openDecl p kind
    · exact .of_eq rfl

/-- Only a line that opens a declaration without a name can be told apart, by its fault. -/
theorem step (h : l.Respaced l') (p : Progress) : Alike (p.step l) (p.step l') := by
  rcases p with ⟨messages, enums, opened, _ | decl | group⟩
  · cases opened with
    | nil => exact h.stepTop _
    | cons m rest => exact h.stepMessage _
  · simp only [Progress.step, Progress.stepEnum, h.closes_eq, h.enumeratorOfLine?_eq]
    exact .of_eq rfl
  · simp only [Progress.step, Progress.stepOneof, h.closes_eq, h.fieldOfLine?_eq]
    exact .of_eq rfl

end Source.Line.Respaced

/-! ## Schemas -/

/-- Line by line, the texts differ in one gap at most. -/
abbrev RespacedLines (lines lines' : List Line) : Prop :=
  List.Forall₂ Line.Respaced lines lines'

theorem RespacedLines.refl (lines : List Line) : RespacedLines lines lines :=
  List.forall₂_same.mpr fun l _ ↦ .refl l

namespace RespacedLines

variable {lines lines' : List Line}

theorem steps (h : RespacedLines lines lines') (p : Progress) :
    Alike (p.steps lines) (p.steps lines') := by
  induction h generalizing p with
  | nil => exact .of_eq rfl
  | cons hl _ ih => exact (hl.step p).bind ih

theorem firstReading?_eq {α : Type} (h : RespacedLines lines lines') (read? : Line → Option α)
    (hread : ∀ l l', l.Respaced l' → read? l = read? l') :
    firstReading? read? lines = firstReading? read? lines' := by
  induction h with
  | nil => rfl
  | cons hl _ ih => rw [firstReading?_cons, firstReading?_cons, hread _ _ hl, ih]

theorem lastNumber_eq (h : RespacedLines lines lines') :
    Schema.lastNumber lines = Schema.lastNumber lines' := by
  have hnumbers : lines.map (·.number) = lines'.map (·.number) := by
    rw [← List.forall₂_eq_eq_eq, List.forall₂_map_left_iff, List.forall₂_map_right_iff]
    exact h.imp fun _ _ hl ↦ hl.number
  rw [Schema.lastNumber, Schema.lastNumber, ← List.getLast?_map, ← List.getLast?_map, hnumbers]

theorem findVersion_eq (h : RespacedLines lines lines') :
    Schema.findVersion lines = Schema.findVersion lines' := by
  have hfirst := h.firstReading?_eq
    (fun l ↦ (Grammar.version? l.text.toList).map (·, l.number)) fun l l' hl ↦ by
      rw [hl.text.version?_eq, hl.number]
  simp only [Schema.findVersion, h.lastNumber_eq, hfirst]

theorem findPackage_eq (h : RespacedLines lines lines') :
    Schema.findPackage lines = Schema.findPackage lines' := by
  unfold Schema.findPackage
  rw [h.lastNumber_eq, h.firstReading?_eq _ fun l l' hl ↦ hl.text.package?_eq]

theorem importsOf_eq (h : RespacedLines lines lines') :
    Schema.importsOf lines = Schema.importsOf lines' := by
  unfold Schema.importsOf
  induction h with
  | nil => rfl
  | cons hl _ ih => rw [List.filterMap_cons, List.filterMap_cons, hl.text.import?_eq, ih]

theorem parse (h : RespacedLines lines lines') :
    Alike (Schema.parse lines) (Schema.parse lines') := by
  unfold Schema.parse
  rw [h.findVersion_eq, h.findPackage_eq, h.importsOf_eq]
  refine Alike.bind (.of_eq rfl) fun versionIndex ↦ ?_
  refine Alike.bind (.of_eq rfl) fun found ↦ ?_
  exact Alike.bind (RespacedLines.steps (List.forall₂_drop _ h) _) fun _ ↦ .of_eq rfl

theorem compileSchema {text text' : String}
    (h : RespacedLines (Source.normalize text) (Source.normalize text')) :
    Alike (compileSchema text) (compileSchema text') :=
  Alike.bind h.parse fun _ ↦ .of_eq rfl

end RespacedLines

end ProtoHeader

import Mathlib.Data.List.Basic
import ProtoHeader.Schema.Parse

/-!
# Unrecognised lines

A line that no grammar reads, that closes nothing and that opens nothing is passed over in every
state of reading.  Taking it out moves the lines after it one place up, and with them the places at
which the language version and the package are found, so that the declarations are still read from
the same lines.  Only a search that reaches the end of the lines can tell the difference, by the
number of the last line.
-/

namespace ProtoHeader

open Source

/-- No grammar reads the line, it closes no declaration, and its first word opens none. -/
structure Source.Line.Unrecognised (l : Line) : Prop where
  version : Grammar.version? l.text.toList = none
  package : Grammar.package? l.text.toList = none
  imported : Grammar.import? l.text.toList = none
  field : Grammar.fieldParts? l.text.toList = none
  enumerator : Grammar.enumeratorParts? l.text.toList = none
  closes : l.closes = false
  keyword : ∀ kind : DeclKind, l.keyword ≠ kind.keyword

variable {x : Line}

/-! ## Steps -/

namespace Source.Line.Unrecognised

theorem declKind? (hx : x.Unrecognised) : Progress.declKind? x = none := by
  apply List.find?_eq_none.mpr
  intro kind _ heq
  exact hx.keyword kind (eq_of_beq heq).symm

theorem fieldOfLine? (hx : x.Unrecognised) : Field.ofLine? x = .ok none := by
  rw [Field.ofLine?, hx.field]

theorem enumeratorOfLine? (hx : x.Unrecognised) : Enumerator.ofLine? x = .ok none := by
  rw [Enumerator.ofLine?, hx.enumerator]

/-- The line is passed over, whatever is open. -/
theorem step (hx : x.Unrecognised) (p : Progress) : p.step x = .ok p := by
  rcases p with ⟨messages, enums, opened, _ | decl | group⟩
  · cases opened with
    | nil => rw [Progress.step, Progress.stepTop, hx.declKind?]
    | cons m rest =>
        simp only [Progress.step, Progress.stepMessage, hx.closes, hx.declKind?, hx.fieldOfLine?]
        rfl
  · simp only [Progress.step, Progress.stepEnum, hx.closes, hx.enumeratorOfLine?]
    rfl
  · simp only [Progress.step, Progress.stepOneof, hx.closes, hx.fieldOfLine?]
    rfl

theorem steps_insert (hx : x.Unrecognised) (p : Progress) (first second : List Line) :
    p.steps (first ++ x :: second) = p.steps (first ++ second) := by
  rw [Progress.steps_append, Progress.steps_append]
  congr 1
  funext q
  exact Progress.steps_cons (hx.step q) second

end Source.Line.Unrecognised

/-! ## Places -/

/-- Where the line at place `i` stands after another one is put in at place `k`. -/
def placeAfter (k i : ℕ) : ℕ :=
  if i < k then i else i + 1

theorem placeAfter_zero : placeAfter 0 = (· + 1) := by
  funext i
  simp [placeAfter]

theorem placeAfter_succ (k i : ℕ) : placeAfter (k + 1) (i + 1) = placeAfter k i + 1 := by
  simp only [placeAfter, Nat.add_lt_add_iff_right]
  split <;> rfl

theorem max_placeAfter (k i j : ℕ) :
    max (placeAfter k i) (placeAfter k j) = placeAfter k (max i j) := by
  unfold placeAfter
  grind

theorem steps_drop_insert (hx : x.Unrecognised) (p : Progress) (first second : List Line) (i : ℕ) :
    p.steps ((first ++ x :: second).drop (placeAfter first.length i + 1)) =
      p.steps ((first ++ second).drop (i + 1)) := by
  by_cases hi : i < first.length
  · -- the line is among those that are read
    rw [placeAfter, if_pos hi, List.drop_append_of_le_length hi, List.drop_append_of_le_length hi]
    exact hx.steps_insert p _ second
  · obtain ⟨k, rfl⟩ := Nat.exists_eq_add_of_le (Nat.not_lt.mp hi)
    rw [placeAfter, if_neg hi, Nat.add_assoc, Nat.add_assoc, Nat.add_assoc,
      List.drop_length_add_append, List.drop_length_add_append, ← Nat.add_assoc,
      List.drop_succ_cons]

theorem firstReading?_cons {α : Type} (read? : Line → Option α) (l : Line) (lines : List Line) :
    firstReading? read? (l :: lines) =
      ((read? l).map (0, ·)).or ((firstReading? read? lines).map (Prod.map (· + 1) id)) := by
  rw [firstReading?, firstReading?, List.zipIdx_cons, List.zipIdx_succ, List.findSome?_cons,
    List.findSome?_map, List.map_findSome?]
  cases hread : read? l with
  | some a => simp [hread]
  | none => simp [hread, Function.comp_def]

theorem firstReading?_insert {α : Type} {read? : Line → Option α} (hx : read? x = none)
    (first second : List Line) :
    firstReading? read? (first ++ x :: second) =
      (firstReading? read? (first ++ second)).map (Prod.map (placeAfter first.length) id) := by
  induction first with
  | nil => simp [firstReading?_cons, hx, placeAfter_zero]
  | cons l first ih =>
      rw [List.cons_append, List.cons_append, firstReading?_cons, firstReading?_cons, ih]
      cases read? l with
      | some a => simp [placeAfter]
      | none => simp [Function.comp_def, Prod.map, placeAfter_succ]

/-! ## Declarations of the file -/

namespace Schema

theorem lastNumber_concat (first : List Line) (l : Line) :
    lastNumber (first ++ [l]) = l.number := by
  simp [lastNumber]

theorem lastNumber_insert (x : Line) (first : List Line) {second : List Line}
    (hsecond : second ≠ []) :
    lastNumber (first ++ x :: second) = lastNumber (first ++ second) := by
  rw [lastNumber, lastNumber, List.getLast?_append_of_ne_nil _ (List.cons_ne_nil _ _),
    List.getLast?_append_of_ne_nil _ hsecond, List.getLast?_cons_of_ne_nil hsecond]

theorem importsOf_insert (hx : x.Unrecognised) (first second : List Line) :
    importsOf (first ++ x :: second) = importsOf (first ++ second) := by
  simp [importsOf, hx.imported]

/-- A search that reports the last number when it finds nothing. -/
theorem search_insert {α β : Type} {missing : ℕ → Fault} {search : List Line → Except Fault β}
    {move : β → β} (read? : Line → Option α) (result : ℕ × α → Except Fault β)
    (hsearch : ∀ lines, search lines =
      (firstReading? read? lines).elim (.error (missing (lastNumber lines))) result)
    (hx : read? x = none) (first second : List Line)
    (hmove : ∀ found,
      result (Prod.map (placeAfter first.length) id found) = move <$> result found) :
    search (first ++ x :: second) = move <$> search (first ++ second) ∨
      second = [] ∧ search (first ++ [x]) = .error (missing x.number) ∧
        search first = .error (missing (lastNumber first)) := by
  have hinsert := firstReading?_insert hx first second
  cases hfound : firstReading? read? (first ++ second) with
  | some found =>
      left
      rw [hfound] at hinsert
      rw [hsearch, hsearch, hinsert, hfound]
      exact hmove found
  | none =>
      rw [hfound] at hinsert
      by_cases hsecond : second = []
      · right
        subst hsecond
        rw [List.append_nil] at hfound
        rw [hsearch, hsearch, hinsert, hfound, lastNumber_concat]
        exact ⟨rfl, rfl, rfl⟩
      · left
        rw [hsearch, hsearch, hinsert, hfound, lastNumber_insert x first hsecond]
        rfl

/-- What follows from the first line that declares a version, its place and number. -/
def readVersion (found : ℕ × Grammar.Version × ℕ) : Except Fault ℕ :=
  if found.2.1 = .proto3 then .ok found.1
  else .error (.unsupportedSyntaxVersion found.2.1.name found.2.2)

theorem findVersion_insert (hx : x.Unrecognised) (first second : List Line) :
    findVersion (first ++ x :: second) =
        placeAfter first.length <$> findVersion (first ++ second) ∨
      second = [] ∧
        findVersion (first ++ [x]) = .error (.missingSyntaxDeclaration x.number) ∧
        findVersion first = .error (.missingSyntaxDeclaration (lastNumber first)) := by
  let versionOf? := fun l : Line ↦ (Grammar.version? l.text.toList).map (·, l.number)
  have hsearch (lines : List Line) : findVersion lines =
      (firstReading? versionOf? lines).elim
        (.error (.missingSyntaxDeclaration (lastNumber lines))) readVersion := by
    simp only [findVersion]
    rcases firstReading? versionOf? lines with _ | ⟨index, _ | _ | _, number⟩ <;> rfl
  have hversion : versionOf? x = none := by simp [versionOf?, hx.version]
  refine search_insert versionOf? readVersion hsearch hversion first second ?_
  rintro ⟨index, _ | _ | _, number⟩ <;> rfl

theorem findPackage_insert (hx : x.Unrecognised) (first second : List Line) :
    findPackage (first ++ x :: second) =
        Prod.map (placeAfter first.length) id <$> findPackage (first ++ second) ∨
      second = [] ∧
        findPackage (first ++ [x]) = .error (.missingPackageDeclaration x.number) ∧
        findPackage first = .error (.missingPackageDeclaration (lastNumber first)) := by
  have hsearch (lines : List Line) : findPackage lines =
      (firstReading? (fun l ↦ Grammar.package? l.text.toList) lines).elim
        (.error (.missingPackageDeclaration (lastNumber lines))) .ok := by
    rw [findPackage]
    cases firstReading? (fun l : Line ↦ Grammar.package? l.text.toList) lines <;> rfl
  exact search_insert _ .ok hsearch hx.package first second fun found ↦ rfl

theorem parse_insert_of_found (hx : x.Unrecognised) {first second : List Line}
    (hversion : findVersion (first ++ x :: second) =
      placeAfter first.length <$> findVersion (first ++ second))
    (hpackage : findPackage (first ++ x :: second) =
      Prod.map (placeAfter first.length) id <$> findPackage (first ++ second)) :
    parse (first ++ x :: second) = parse (first ++ second) := by
  rw [parse, parse, hversion, hpackage, importsOf_insert hx]
  cases findVersion (first ++ second) with
  | error fault => rfl
  | ok versionIndex =>
      cases findPackage (first ++ second) with
      | error fault => rfl
      | ok found =>
          simp only [bind, Except.bind, Functor.map, Except.map, Prod.map]
          rw [max_placeAfter, steps_drop_insert hx]
          rfl

/-- An unrecognised line never influences the result: with it and without it there is the same
schema or the same fault.  Only where it is the last line and the language version or the package
is missing, the faults differ in the number of the line up to which they were looked for. -/
theorem parse_insert_unrecognised (hx : x.Unrecognised) (first second : List Line) :
    parse (first ++ x :: second) = parse (first ++ second) ∨
      second = [] ∧
        (parse (first ++ [x]) = .error (.missingSyntaxDeclaration x.number) ∧
            parse first = .error (.missingSyntaxDeclaration (lastNumber first)) ∨
          parse (first ++ [x]) = .error (.missingPackageDeclaration x.number) ∧
            parse first = .error (.missingPackageDeclaration (lastNumber first))) := by
  rcases findVersion_insert hx first second with hversion | ⟨hsecond, hwith, hwithout⟩
  · rcases findPackage_insert hx first second with hpackage | ⟨rfl, hwith, hwithout⟩
    · exact .inl (parse_insert_of_found hx hversion hpackage)
    · -- the package is missing, but a fault of the language version comes first
      rw [List.append_nil] at hversion ⊢
      cases hfound : findVersion first with
      | error fault =>
          left
          rw [parse, parse, hversion, hfound]
          rfl
      | ok versionIndex =>
          right
          refine ⟨rfl, .inr ⟨?_, ?_⟩⟩
          · rw [parse, hversion, hfound, hwith]
            rfl
          · rw [parse, hfound, hwithout]
            rfl
  · right
    refine ⟨hsecond, .inl ⟨?_, ?_⟩⟩
    · rw [parse, hwith]
      rfl
    · rw [parse, hwithout]
      rfl

/-- An option, which is not read. -/
def speedLine : Line :=
  ⟨"option optimize_for = SPEED;", 4⟩

theorem unrecognised_speedLine : speedLine.Unrecognised where
  version := by decide +kernel
  package := by decide +kernel
  imported := by decide +kernel
  field := by decide +kernel
  enumerator := by decide +kernel
  closes := by decide +kernel
  keyword := by rintro (_ | _ | _) <;> decide +kernel

/-- The lines before the option: it stands inside a choice group. -/
def speedBefore : List Line :=
  [⟨"syntax = \"proto3\";", 1⟩, ⟨"package p;", 1⟩, ⟨"message M \x7b", 2⟩, ⟨"oneof o \x7b", 3⟩]

def speedAfter : List Line :=
  [⟨"int32 a = 1;", 5⟩, ⟨"\x7d", 6⟩, ⟨"\x7d", 6⟩]

theorem parse_insert_unrecognised_speedLine :
    speedLine.Unrecognised ∧ (parse (speedBefore ++ speedAfter)).isOk = true ∧
      parse (speedBefore ++ speedLine :: speedAfter) = parse (speedBefore ++ speedAfter) := by
  refine ⟨unrecognised_speedLine, by decide +kernel, ?_⟩
  rcases parse_insert_unrecognised unrecognised_speedLine speedBefore speedAfter with
    hsame | ⟨hend, _⟩
  · exact hsame
  · exact absurd hend (by decide)

end Schema

end ProtoHeader

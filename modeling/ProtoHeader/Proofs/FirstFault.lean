import ProtoHeader.Proofs.UnrecognisedLines

/-!
# The first malformed line decides

Lines are read up to the first one that is malformed, and what is said about it is taken from that
line alone.  Lines after the ones that declare the language version and the package cannot change
where these are found, so that whatever follows the first malformed line is never looked at.
-/

namespace ProtoHeader

open Source

/-! ## Malformed lines -/

/-- The fault reports the line as malformed: a keyword without a name, with the whole text of the
line, or an enumerator or a field with the number that cannot be taken. -/
inductive Fault.Reports (l : Line) : Fault → Prop
  | declaration (kind : DeclKind) (keyword : l.keyword = kind.keyword)
      (unnamed : Grammar.declaredName? kind.keyword l.text.toList = none) :
      Reports l (.malformedDeclaration kind l.text l.number)
  | enumerator (parts : Grammar.EnumeratorParts)
      (read : Grammar.enumeratorParts? l.text.toList = some parts)
      (refused : Grammar.enumNumber? parts.value = none) :
      Reports l
        (.malformedEnumValue (String.ofList parts.name) (String.ofList parts.value) l.number)
  | field (parts : Grammar.FieldParts) (read : Grammar.fieldParts? l.text.toList = some parts)
      (refused : Grammar.tag? parts.digits = none) :
      Reports l
        (.malformedFieldTag (String.ofList parts.name) (String.ofList parts.digits) l.number)

theorem bind_error_cases {α β : Type} {x : Except Fault α} {f : α → Except Fault β} {fault : Fault}
    (h : x >>= f = .error fault) : x = .error fault ∨ ∃ a, x = .ok a ∧ f a = .error fault := by
  cases x with
  | error cause =>
      cases h
      exact .inl rfl
  | ok a => exact .inr ⟨a, rfl, h⟩

theorem Field.reports_of_ofLine? {l : Line} {fault : Fault} (h : Field.ofLine? l = .error fault) :
    fault.Reports l := by
  unfold Field.ofLine? at h
  cases hparts : Grammar.fieldParts? l.text.toList with
  | none => simp [hparts] at h
  | some parts =>
      cases htag : Grammar.tag? parts.digits with
      | some tag => simp [hparts, htag] at h
      | none =>
          simp only [hparts, htag, Except.error.injEq] at h
          subst h
          exact .field parts hparts htag

theorem Enumerator.reports_of_ofLine? {l : Line} {fault : Fault}
    (h : Enumerator.ofLine? l = .error fault) : fault.Reports l := by
  unfold Enumerator.ofLine? at h
  cases hparts : Grammar.enumeratorParts? l.text.toList with
  | none => simp [hparts] at h
  | some parts =>
      cases hvalue : Grammar.enumNumber? parts.value with
      | some value => simp [hparts, hvalue] at h
      | none =>
          simp only [hparts, hvalue, Except.error.injEq] at h
          subst h
          exact .enumerator parts hparts hvalue

namespace Progress

variable {p : Progress} {l : Line} {fault : Fault}

theorem keyword_of_declKind? {kind : DeclKind} (h : declKind? l = some kind) :
    l.keyword = kind.keyword := by
  have hkeyword := List.find?_some h
  exact (eq_of_beq hkeyword).symm

theorem reports_of_openDecl {kind : DeclKind} (hkind : declKind? l = some kind)
    (h : p.openDecl kind l = .error fault) : fault.Reports l := by
  unfold openDecl at h
  cases hname : Grammar.declaredName? kind.keyword l.text.toList with
  | some name => simp [hname] at h
  | none =>
      simp only [hname, Except.error.injEq] at h
      subst h
      exact .declaration kind (keyword_of_declKind? hkind) hname

theorem reports_of_stepTop (h : p.stepTop l = .error fault) : fault.Reports l := by
  unfold stepTop at h
  split at h
  · next hkind => exact reports_of_openDecl hkind h
  · next hkind => exact reports_of_openDecl hkind h
  · cases h

theorem reports_of_stepMessage (h : p.stepMessage l = .error fault) : fault.Reports l := by
  unfold stepMessage at h
  split at h
  · cases h
  · split at h
    · next hkind => exact reports_of_openDecl hkind h
    · obtain hfield | ⟨_ | f, -, h⟩ := bind_error_cases h
      · exact Field.reports_of_ofLine? hfield
      · cases h
      · cases h

theorem reports_of_stepEnum {decl : EnumDecl} (h : p.stepEnum decl l = .error fault) :
    fault.Reports l := by
  unfold stepEnum at h
  split at h
  · cases h
  · obtain hvalue | ⟨_ | v, -, h⟩ := bind_error_cases h
    · exact Enumerator.reports_of_ofLine? hvalue
    · cases h
    · cases h

theorem reports_of_stepOneof {group : String} (h : p.stepOneof group l = .error fault) :
    fault.Reports l := by
  unfold stepOneof at h
  split at h
  · cases h
  · obtain hfield | ⟨_ | f, -, h⟩ := bind_error_cases h
    · exact Field.reports_of_ofLine? hfield
    · cases h
    · cases h

/-- Whatever is open, only a malformed line is refused. -/
theorem reports_of_step (h : p.step l = .error fault) : fault.Reports l := by
  rcases p with ⟨messages, enums, opened, _ | decl | group⟩
  · cases opened with
    | nil => exact reports_of_stepTop h
    | cons m rest => exact reports_of_stepMessage h
  · exact reports_of_stepEnum h
  · exact reports_of_stepOneof h

/-- Where reading fails there is a first line that is refused. -/
theorem exists_refused_of_steps {lines : List Line} (h : p.steps lines = .error fault) :
    ∃ before x after q, lines = before ++ x :: after ∧ p.steps before = .ok q ∧
      q.step x = .error fault := by
  induction lines generalizing p with
  | nil => cases h
  | cons l lines ih =>
      rw [steps, List.foldlM_cons] at h
      obtain hl | ⟨r, hr, h⟩ := bind_error_cases h
      · exact ⟨[], l, lines, p, rfl, rfl, hl⟩
      · obtain ⟨before, x, after, q, rfl, hbefore, hx⟩ := ih h
        exact ⟨l :: before, x, after, q, rfl, by rw [steps_cons hr, hbefore], hx⟩

theorem steps_append_of_error {first : List Line} (h : p.steps first = .error fault)
    (second : List Line) : p.steps (first ++ second) = .error fault := by
  rw [steps_append, h]
  rfl

end Progress

/-! ## Searches are not moved by what follows -/

theorem firstReading?_append {α : Type} (read? : Line → Option α) (first second : List Line) :
    firstReading? read? (first ++ second) =
      (firstReading? read? first).or
        ((firstReading? read? second).map fun found ↦ (found.1 + first.length, found.2)) := by
  induction first with
  | nil =>
      have hnil : firstReading? read? [] = none := rfl
      simp [hnil]
  | cons l first ih =>
      rw [List.cons_append, firstReading?_cons, firstReading?_cons, ih]
      cases read? l with
      | some a => rfl
      | none =>
          cases firstReading? read? first with
          | some found => rfl
          | none => simp [Function.comp_def, Prod.map, Nat.add_assoc]

theorem lt_length_of_firstReading? {α : Type} {read? : Line → Option α} {lines : List Line}
    {found : ℕ × α} (h : firstReading? read? lines = some found) : found.1 < lines.length := by
  obtain ⟨⟨l, i⟩, hmem, hread⟩ := List.exists_of_findSome?_eq_some h
  obtain ⟨a, -, rfl⟩ := Option.map_eq_some_iff.mp hread
  simpa using List.snd_lt_of_mem_zipIdx hmem

theorem firstReading?_eq_none_iff {α : Type} {read? : Line → Option α} {lines : List Line} :
    firstReading? read? lines = none ↔ ∀ l ∈ lines, read? l = none := by
  induction lines with
  | nil => simp [firstReading?]
  | cons l lines ih =>
      rw [firstReading?_cons, List.forall_mem_cons, ← ih]
      cases read? l <;> simp

namespace Schema

/-- Some line declares a package, and the first line that declares a language version declares the
supported one. -/
structure DeclaresFile (lines : List Line) : Prop where
  version : ∃ before l after, lines = before ++ l :: after ∧
    (∀ k ∈ before, Grammar.version? k.text.toList = none) ∧
    Grammar.version? l.text.toList = some .proto3
  package : ∃ l ∈ lines, Grammar.package? l.text.toList ≠ none

variable {lines : List Line} {versionIndex packageIndex : ℕ} {package : String} {fault : Fault}

/-- The supported version is found where the first line that declares any version stands. -/
theorem findVersion_eq_ok_iff : findVersion lines = .ok versionIndex ↔
    ∃ number, firstReading? (fun l ↦ (Grammar.version? l.text.toList).map (·, l.number)) lines =
      some (versionIndex, .proto3, number) := by
  simp only [findVersion]
  rcases firstReading? _ lines with _ | ⟨index, _ | _ | _, number⟩ <;> simp

theorem findPackage_eq_ok_iff : findPackage lines = .ok (packageIndex, package) ↔
    firstReading? (fun l ↦ Grammar.package? l.text.toList) lines =
      some (packageIndex, package) := by
  simp only [findPackage]
  cases firstReading? (fun l : Line ↦ Grammar.package? l.text.toList) lines <;> simp

/-- The declarations of the file are found at the given places. -/
structure FoundAt (lines : List Line) (versionIndex packageIndex : ℕ) (package : String) :
    Prop where
  version : findVersion lines = .ok versionIndex
  package : findPackage lines = .ok (packageIndex, package)

theorem DeclaresFile.exists_foundAt (h : DeclaresFile lines) :
    ∃ versionIndex packageIndex package, FoundAt lines versionIndex packageIndex package := by
  obtain ⟨⟨before, l, after, rfl, hbefore, hl⟩, k, hk, hpackage⟩ := h
  have hversion : findVersion (before ++ l :: after) = .ok before.length := by
    refine findVersion_eq_ok_iff.mpr ⟨l.number, ?_⟩
    have hnone : firstReading? (fun l ↦ (Grammar.version? l.text.toList).map (·, l.number)) before =
        none := firstReading?_eq_none_iff.mpr fun m hm ↦ by rw [hbefore m hm]; rfl
    rw [firstReading?_append, hnone, firstReading?_cons, hl]
    simp
  cases hfound : firstReading? (fun l ↦ Grammar.package? l.text.toList) (before ++ l :: after) with
  | none => exact absurd (firstReading?_eq_none_iff.mp hfound k hk) hpackage
  | some found =>
      exact ⟨_, found.1, found.2, hversion, findPackage_eq_ok_iff.mpr hfound⟩

theorem FoundAt.lt_length (h : FoundAt lines versionIndex packageIndex package) :
    max versionIndex packageIndex + 1 ≤ lines.length := by
  obtain ⟨number, hversion⟩ := findVersion_eq_ok_iff.mp h.version
  have hversion := lt_length_of_firstReading? hversion
  have hpackage := lt_length_of_firstReading? (findPackage_eq_ok_iff.mp h.package)
  exact Nat.max_lt.mpr ⟨hversion, hpackage⟩

theorem FoundAt.append (h : FoundAt lines versionIndex packageIndex package) (more : List Line) :
    FoundAt (lines ++ more) versionIndex packageIndex package := by
  obtain ⟨number, hversion⟩ := findVersion_eq_ok_iff.mp h.version
  have hpackage := findPackage_eq_ok_iff.mp h.package
  refine ⟨findVersion_eq_ok_iff.mpr ⟨number, ?_⟩, findPackage_eq_ok_iff.mpr ?_⟩
  · rw [firstReading?_append, hversion]
    rfl
  · rw [firstReading?_append, hpackage]
    rfl

theorem firstReading?_of_append {α : Type} {read? : Line → Option α} {first second : List Line}
    {found : ℕ × α} (h : firstReading? read? (first ++ second) = some found)
    (hlt : found.1 < first.length) : firstReading? read? first = some found := by
  rw [firstReading?_append] at h
  cases hfirst : firstReading? read? first with
  | some other => simpa [hfirst] using h
  | none =>
      rw [hfirst, Option.none_or] at h
      obtain ⟨other, -, rfl⟩ := Option.map_eq_some_iff.mp h
      exact absurd hlt (Nat.not_lt.mpr (Nat.le_add_left _ _))

/-- The lines up to the declarations of the file are enough to find them. -/
theorem FoundAt.of_append {first second : List Line}
    (h : FoundAt (first ++ second) versionIndex packageIndex package)
    (hlength : max versionIndex packageIndex + 1 ≤ first.length) :
    FoundAt first versionIndex packageIndex package := by
  obtain ⟨number, hversion⟩ := findVersion_eq_ok_iff.mp h.version
  have hpackage := findPackage_eq_ok_iff.mp h.package
  obtain ⟨hv, hp⟩ := Nat.max_lt.mp hlength
  exact ⟨findVersion_eq_ok_iff.mpr ⟨number, firstReading?_of_append hversion hv⟩,
    findPackage_eq_ok_iff.mpr (firstReading?_of_append hpackage hp)⟩

/-! ## The verdict -/

/-- Once the declarations of the file are found, only the lines after them can be refused. -/
theorem FoundAt.parse_eq_error_iff (h : FoundAt lines versionIndex packageIndex package) :
    parse lines = .error fault ↔
      Progress.start.steps (lines.drop (max versionIndex packageIndex + 1)) = .error fault := by
  rw [parse, h.version, h.package]
  simp only [bind, Except.bind]
  cases Progress.start.steps (lines.drop (max versionIndex packageIndex + 1)) with
  | error cause => simp
  | ok progress => simp [pure, Except.pure]

theorem FoundAt.exists_parse_eq_ok (h : FoundAt lines versionIndex packageIndex package)
    {q : Progress}
    (hsteps : Progress.start.steps (lines.drop (max versionIndex packageIndex + 1)) = .ok q) :
    ∃ s, parse lines = .ok s := by
  cases hparse : parse lines with
  | ok s => exact ⟨s, rfl⟩
  | error cause => exact nomatch (h.parse_eq_error_iff.mp hparse).symm.trans hsteps

theorem exists_foundAt_of_parse {s : Schema} (h : parse lines = .ok s) :
    ∃ versionIndex packageIndex package, FoundAt lines versionIndex packageIndex package ∧
      ∃ q, Progress.start.steps (lines.drop (max versionIndex packageIndex + 1)) = .ok q := by
  obtain ⟨versionIndex, hversion, h⟩ := exists_of_bind_ok h
  obtain ⟨⟨packageIndex, package⟩, hpackage, h⟩ := exists_of_bind_ok h
  obtain ⟨q, hsteps, -⟩ := exists_of_bind_ok h
  exact ⟨versionIndex, packageIndex, package, ⟨hversion, hpackage⟩, q, hsteps⟩

theorem FoundAt.drop_append (h : FoundAt lines versionIndex packageIndex package)
    (more : List Line) :
    (lines ++ more).drop (max versionIndex packageIndex + 1) =
      lines.drop (max versionIndex packageIndex + 1) ++ more :=
  List.drop_append_of_le_length h.lt_length

/-- A line that turns accepted lines into refused ones is reported itself. -/
theorem reports_of_parse_concat {s : Schema} {x : Line} (hok : parse lines = .ok s)
    (herror : parse (lines ++ [x]) = .error fault) : fault.Reports x := by
  obtain ⟨versionIndex, packageIndex, package, hfound, q, hsteps⟩ := exists_foundAt_of_parse hok
  rw [(hfound.append [x]).parse_eq_error_iff, hfound.drop_append,
    Progress.steps_append_of_ok hsteps] at herror
  obtain ⟨before, y, after, r, hsplit, -, hy⟩ := Progress.exists_refused_of_steps herror
  obtain ⟨rfl, rfl, rfl⟩ : before = [] ∧ x = y ∧ after = [] := by
    cases before <;> simp_all
  exact Progress.reports_of_step hy

/-- Where lines are refused there is a first one with which they are, for the same reason. -/
theorem FoundAt.exists_first_refused (hfound : FoundAt lines versionIndex packageIndex package)
    (h : parse lines = .error fault) :
    ∃ before x after, lines = before ++ x :: after ∧ (∃ s, parse before = .ok s) ∧
      parse (before ++ [x]) = .error fault := by
  obtain ⟨before, x, after, q, hsplit, hbefore, hx⟩ :=
    Progress.exists_refused_of_steps (hfound.parse_eq_error_iff.mp h)
  obtain ⟨head, hhead⟩ : ∃ head, head = lines.take (max versionIndex packageIndex + 1) := ⟨_, rfl⟩
  have hlength : head.length = max versionIndex packageIndex + 1 := by
    rw [hhead, List.length_take, Nat.min_eq_left hfound.lt_length]
  have hlines : lines = head ++ (before ++ x :: after) := by
    rw [hhead, ← hsplit, List.take_append_drop]
  -- the lines up to the declarations of the file come first, then those that are read
  rw [hlines] at hfound
  have hread := (hfound.of_append (Nat.le_of_eq hlength.symm)).append before
  have hdrop (rest : List Line) :
      (head ++ rest).drop (max versionIndex packageIndex + 1) = rest := by
    rw [← hlength, List.drop_left]
  refine ⟨head ++ before, x, after, by rw [hlines, List.append_assoc], ?_, ?_⟩
  · exact hread.exists_parse_eq_ok (by rw [hdrop, hbefore])
  · rw [(hread.append [x]).parse_eq_error_iff, List.append_assoc, hdrop,
      Progress.steps_append_of_ok hbefore]
    rw [Progress.steps, List.foldlM_cons, hx]
    rfl

/-- A refusal is final: whatever lines follow, the fault is the same.  It is the fault of the first
line with which the lines are refused, and says of that line what stands in it. -/
theorem first_fault_decides (h : DeclaresFile lines) :
    (∀ fault, parse lines = .error fault → ∀ more, parse (lines ++ more) = .error fault) ∧
      (∀ before x fault, lines = before ++ [x] → (∃ s, parse before = .ok s) →
        parse lines = .error fault → fault.Reports x) ∧
      ∀ fault, parse lines = .error fault →
        ∃ before x after, lines = before ++ x :: after ∧ (∃ s, parse before = .ok s) ∧
          fault.Reports x := by
  obtain ⟨versionIndex, packageIndex, package, hfound⟩ := h.exists_foundAt
  refine ⟨?_, ?_, ?_⟩
  · intro fault herror more
    rw [(hfound.append more).parse_eq_error_iff, hfound.drop_append]
    exact Progress.steps_append_of_error (hfound.parse_eq_error_iff.mp herror) more
  · rintro before x fault rfl ⟨s, hok⟩ herror
    exact reports_of_parse_concat hok herror
  · intro fault herror
    obtain ⟨before, x, after, hlines, ⟨s, hok⟩, hx⟩ := hfound.exists_first_refused herror
    exact ⟨before, x, after, hlines, ⟨s, hok⟩, reports_of_parse_concat hok hx⟩

/-- A tag of zero, in a choice group that is still open. -/
def zeroTag : Line :=
  ⟨"int32 a = 0 [packed = true];", 5⟩

def zeroTagBefore : List Line :=
  [⟨"package p;", 1⟩, ⟨"syntax = \"proto3\";", 2⟩, ⟨"message M \x7b", 3⟩, ⟨"oneof o \x7b", 4⟩]

theorem declaresFile_zeroTag : DeclaresFile (zeroTagBefore ++ [zeroTag]) where
  version := ⟨[⟨"package p;", 1⟩], ⟨"syntax = \"proto3\";", 2⟩, _, rfl, by decide +kernel,
    by decide +kernel⟩
  package := ⟨⟨"package p;", 1⟩, List.mem_cons_self, by decide +kernel⟩

theorem first_fault_decides_zeroTag :
    DeclaresFile (zeroTagBefore ++ [zeroTag]) ∧
      (∃ s, parse zeroTagBefore = .ok s) ∧
      Fault.Reports zeroTag (.malformedFieldTag "a" "0" 5) ∧
      ∀ more, parse (zeroTagBefore ++ [zeroTag] ++ more) =
        .error (.malformedFieldTag "a" "0" 5) := by
  have hok : ∃ s, parse zeroTagBefore = .ok s := ⟨_, rfl⟩
  have herror : parse (zeroTagBefore ++ [zeroTag]) = .error (.malformedFieldTag "a" "0" 5) := rfl
  obtain ⟨hfinal, hreports, -⟩ := first_fault_decides declaresFile_zeroTag
  exact ⟨declaresFile_zeroTag, hok, hreports _ _ _ rfl hok herror, hfinal _ herror⟩

end Schema

end ProtoHeader

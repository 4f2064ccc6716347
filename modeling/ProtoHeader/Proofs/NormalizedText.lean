import Mathlib.Data.Nat.Notation
import ProtoHeader.Proofs.Scanning

/-!
# Lines of a written text

A text that is written statement by statement is cut into lines at exactly the ends of its
statements, whatever blanks stand between them.  The line breaks among these blanks give each line
its number.
-/

namespace ProtoHeader

open Text

namespace Source

/-! ## Marks -/

theorem marks_newline (mode : Mode) (cs : List Char) :
    marks mode ('\n' :: cs) = .newline :: marks mode.nextLine cs := by
  rw [marks.eq_def]
  simp

theorem marks_code_cons {c : Char} (hbreak : c ≠ '\n') (hslash : c ≠ '/') (cs : List Char) :
    marks .code (c :: cs) = .ofCode c :: marks (.afterCode c) cs := by
  cases cs with
  | nil => simp [marks, hbreak]
  | cons d ds => rw [marks.eq_def]; simp [hbreak, hslash]

theorem marks_literal_cons {quote c : Char} (hbreak : c ≠ '\n') (hslash : c ≠ '\\')
    (cs : List Char) : marks (.literal quote) (c :: cs) =
      .plain c :: marks (if c = quote then .code else .literal quote) cs := by
  cases cs with
  | nil => simp [marks, hbreak]
  | cons d ds =>
      rw [marks.eq_def]
      simp only [hbreak, hslash, false_and, if_false]
      split <;> rfl

/-- The character stands for itself outside literals and comments. -/
def IsOrdinary (c : Char) : Prop :=
  c ∉ ['\n', '/', '"', '\'', '}', ';', '{']

theorem marks_ordinary {cs : List Char} (h : ∀ c ∈ cs, IsOrdinary c) (rest : List Char) :
    marks .code (cs ++ rest) = cs.map .plain ++ marks .code rest := by
  induction cs with
  | nil => rfl
  | cons c cs ih =>
      have hc := h c List.mem_cons_self
      simp only [IsOrdinary, List.mem_cons, List.not_mem_nil, or_false, not_or] at hc
      have htail := ih fun d hd ↦ h d (List.mem_cons_of_mem c hd)
      simp [marks_code_cons hc.1 hc.2.1, Mark.ofCode, Mode.afterCode, hc, htail]

theorem marks_literal {quote : Char} (hquote : quote ≠ '\n' ∧ quote ≠ '\\') {cs : List Char}
    (h : ∀ c ∈ cs, c ≠ quote ∧ c ≠ '\n' ∧ c ≠ '\\') (rest : List Char) :
    marks (.literal quote) (cs ++ quote :: rest) =
      cs.map .plain ++ .plain quote :: marks .code rest := by
  induction cs with
  | nil => simp [marks_literal_cons hquote.1 hquote.2]
  | cons c cs ih =>
      obtain ⟨hc, hbreak, hslash⟩ := h c List.mem_cons_self
      have htail := ih fun d hd ↦ h d (List.mem_cons_of_mem c hd)
      simp [marks_literal_cons hbreak hslash, hc, htail]

/-! ## Statements that become lines -/

theorem linesOf_plain (n : ℕ) (pending cs : List Char) (ms : List Mark) :
    linesOf n pending (cs.map .plain ++ ms) = linesOf n (cs.reverse ++ pending) ms := by
  induction cs generalizing pending with
  | nil => rfl
  | cons c cs ih => simp [linesOf, ih]

theorem trim_blanks_append {blanks cs : List Char} (h : ∀ c ∈ blanks, isBlank c = true) :
    trim (blanks ++ cs) = trim cs := by
  simp [trim, skipBlanks, List.dropWhile_append_of_pos h]

theorem trim_eq_self {c stop : Char} {cs : List Char} (hc : isBlank c = false)
    (hstop : isBlank stop = false) : trim (c :: (cs ++ [stop])) = c :: (cs ++ [stop]) := by
  have hreverse : (c :: (cs ++ [stop])).reverse = stop :: (c :: cs).reverse := by simp
  rw [trim, skipBlanks_cons_of_false hc, hreverse, skipBlanks_cons_of_false hstop, ← hreverse,
    List.reverse_reverse]

/-- After blanks the characters make up one line, and nothing of them is left. -/
def IsStatement (s : List Char) : Prop :=
  ∀ (n : ℕ) (blanks rest : List Char), (∀ c ∈ blanks, isBlank c = true) →
    linesOf n blanks (marks .code (s ++ rest)) =
      ⟨String.ofList s, n⟩ :: linesOf n [] (marks .code rest)

theorem lineOf?_blanks {n : ℕ} {blanks : List Char} (h : ∀ c ∈ blanks, isBlank c = true) :
    lineOf? n blanks = none := by
  have htrim : trim (blanks ++ []) = [] := trim_blanks_append h
  rw [List.append_nil] at htrim
  rw [lineOf?, htrim]
  rfl

theorem isStatement_close : IsStatement ['}'] := by
  intro n blanks rest hblanks
  have hblank : ∀ c ∈ blanks.reverse, isBlank c = true := by simpa using hblanks
  rw [List.singleton_append, marks_code_cons (by decide) (by decide)]
  simp [Mark.ofCode, Mode.afterCode, linesOf, lineOf?_blanks hblank]

theorem isStatement_of_marks {c stop : Char} {cs : List Char} (hc : isBlank c = false)
    (hstop : isBlank stop = false)
    (hmarks : ∀ rest, marks .code (c :: (cs ++ stop :: rest)) =
      (c :: cs).map .plain ++ .stop stop :: marks .code rest) :
    IsStatement (c :: (cs ++ [stop])) := by
  intro n blanks rest hblanks
  have hblank : ∀ d ∈ blanks.reverse, isBlank d = true := by simpa using hblanks
  have hpending : (stop :: ((c :: cs).reverse ++ blanks)).reverse =
      blanks.reverse ++ c :: (cs ++ [stop]) := by simp
  have hline : lineOf? n (stop :: ((c :: cs).reverse ++ blanks)).reverse =
      some ⟨String.ofList (c :: (cs ++ [stop])), n⟩ := by
    rw [hpending, lineOf?, trim_blanks_append hblank, trim_eq_self hc hstop]
    simp
  rw [List.cons_append, List.append_assoc, List.singleton_append, hmarks, linesOf_plain, linesOf,
    hline]
  rfl

theorem isStatement_ordinary {c stop : Char} {cs : List Char} (hc : isBlank c = false)
    (hcs : ∀ d ∈ c :: cs, IsOrdinary d) (hstop : stop = ';' ∨ stop = '{') :
    IsStatement (c :: (cs ++ [stop])) := by
  apply isStatement_of_marks hc
  · rcases hstop with rfl | rfl <;> decide
  · intro rest
    rw [← List.cons_append, marks_ordinary hcs]
    rcases hstop with rfl | rfl
    · rw [marks_code_cons (by decide) (by decide)]
      rfl
    · rw [marks_code_cons (by decide) (by decide)]
      rfl

/-- A statement with a quoted part right before its semicolon. -/
theorem isStatement_quoted {c : Char} {cs quoted : List Char} (hc : isBlank c = false)
    (hcs : ∀ d ∈ c :: cs, IsOrdinary d)
    (hquoted : ∀ d ∈ quoted, d ≠ '"' ∧ d ≠ '\n' ∧ d ≠ '\\') :
    IsStatement (c :: ((cs ++ '"' :: (quoted ++ ['"'])) ++ [';'])) := by
  apply isStatement_of_marks hc (by decide)
  intro rest
  have htext : c :: (cs ++ '"' :: (quoted ++ ['"']) ++ ';' :: rest) =
      (c :: cs) ++ '"' :: (quoted ++ '"' :: ';' :: rest) := by simp
  have hopen : Mode.afterCode '"' = .literal '"' := by decide
  rw [htext, marks_ordinary hcs, marks_code_cons (by decide) (by decide), hopen,
    marks_literal (by decide) hquoted, marks_code_cons (by decide) (by decide)]
  simp [Mark.ofCode, Mode.afterCode]

/-! ## Blanks between statements -/

theorem isOrdinary_of_isBlank {c : Char} (hc : isBlank c = true) (hbreak : c ≠ '\n') :
    IsOrdinary c := by
  have hspecial : ∀ d ∈ ['/', '"', '\'', '}', ';', '{'], isBlank d = false :=
    forall_mem_of_all (by decide)
  intro hmem
  rcases List.mem_cons.1 hmem with hc' | hmem
  · exact hbreak hc'
  · rw [hspecial c hmem] at hc
    contradiction

theorem linesOf_blank {c : Char} (hc : isBlank c = true) (hbreak : c ≠ '\n') (n : ℕ)
    (blanks cs : List Char) :
    linesOf n blanks (marks .code (c :: cs)) = linesOf n (c :: blanks) (marks .code cs) := by
  have hordinary := isOrdinary_of_isBlank hc hbreak
  have hmarks := marks_ordinary (List.forall_mem_singleton.2 hordinary) cs
  rw [List.singleton_append] at hmarks
  rw [hmarks]
  rfl

theorem linesOf_break {n : ℕ} {blanks cs : List Char} (h : ∀ c ∈ blanks, isBlank c = true) :
    linesOf n blanks (marks .code ('\n' :: cs)) = linesOf (n + 1) [] (marks .code cs) := by
  have hblank : ∀ c ∈ blanks.reverse, isBlank c = true := by simpa using h
  rw [marks_newline, linesOf, lineOf?_blanks hblank]
  rfl

theorem linesOf_statement {s : List Char} (hs : IsStatement s) {gap : List Char}
    (hgap : ∀ c ∈ gap, isBlank c = true) {n : ℕ} {blanks : List Char}
    (hblanks : ∀ c ∈ blanks, isBlank c = true) (rest : List Char) :
    linesOf n blanks (marks .code (gap ++ (s ++ rest))) =
      ⟨String.ofList s, n + gap.count '\n'⟩ ::
        linesOf (n + gap.count '\n') [] (marks .code rest) := by
  induction gap generalizing n blanks with
  | nil => simpa using hs n blanks rest hblanks
  | cons c gap ih =>
      have hc := hgap c List.mem_cons_self
      have htail : ∀ d ∈ gap, isBlank d = true := fun d hd ↦ hgap d (List.mem_cons_of_mem c hd)
      rw [List.cons_append]
      by_cases hbreak : c = '\n'
      · subst hbreak
        rw [linesOf_break hblanks, ih htail (by simp), List.count_cons_self, Nat.add_right_comm,
          Nat.add_assoc]
      · rw [linesOf_blank hc hbreak, ih htail (by simpa [hc] using hblanks),
          List.count_cons_of_ne hbreak]

theorem linesOf_gap {gap : List Char} (hgap : ∀ c ∈ gap, isBlank c = true) {n : ℕ}
    {blanks : List Char} (hblanks : ∀ c ∈ blanks, isBlank c = true) :
    linesOf n blanks (marks .code gap) = [] := by
  induction gap generalizing n blanks with
  | nil =>
      have hblank : ∀ c ∈ blanks.reverse, isBlank c = true := by simpa using hblanks
      simp [marks, linesOf, lineOf?_blanks hblank]
  | cons c gap ih =>
      have hc := hgap c List.mem_cons_self
      have htail : ∀ d ∈ gap, isBlank d = true := fun d hd ↦ hgap d (List.mem_cons_of_mem c hd)
      by_cases hbreak : c = '\n'
      · subst hbreak
        rw [linesOf_break hblanks]
        exact ih htail (by simp)
      · rw [linesOf_blank hc hbreak]
        exact ih htail (by simpa [hc] using hblanks)

end Source

namespace SourceTree

open Source

/-- The lines of several statements, the first of which has index `k`. -/
def numbered (line : ℕ → ℕ) (k : ℕ) (statements : List (List Char)) : List Line :=
  (statements.zipIdx k).map fun (s, i) ↦ ⟨String.ofList s, line i⟩

theorem linesOf_layOut (gap : ℕ → Gap) {statements : List (List Char)}
    (h : ∀ s ∈ statements, IsStatement s) {n k : ℕ} (hn : n + (gap k).breaks = lineOf gap k) :
    linesOf n [] (marks .code (layOut gap k statements)) =
      numbered (lineOf gap) k statements := by
  induction statements generalizing n k with
  | nil => exact linesOf_gap (gap k).blank (by simp)
  | cons s statements ih =>
      have hnumber : n + (gap k).chars.count '\n' = lineOf gap k := hn
      have hrest := ih (fun t ht ↦ h t (List.mem_cons_of_mem s ht)) (n := lineOf gap k)
        (k := k + 1) rfl
      rw [layOut, linesOf_statement (h s List.mem_cons_self) (gap k).blank (by simp), hnumber,
        hrest]
      rfl

theorem normalize_layOut (gap : ℕ → Gap) {statements : List (List Char)}
    (h : ∀ s ∈ statements, IsStatement s) :
    Source.normalize (String.ofList (layOut gap 0 statements)) =
      numbered (lineOf gap) 0 statements := by
  rw [Source.normalize, String.toList_ofList]
  exact linesOf_layOut gap h rfl

end SourceTree

end ProtoHeader

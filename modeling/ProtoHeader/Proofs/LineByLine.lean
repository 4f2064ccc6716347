import ProtoHeader.Proofs.PhysicalLines
import ProtoHeader.Proofs.Reader
import ProtoHeader.Proofs.Renumbering

/-!
# One physical line after the other

At the end of a physical line nothing is remembered but whether a block comment is open.  A text is
therefore cut into lines one physical line after the other, and what a line says stands on the
physical line whose number it carries.
-/

namespace ProtoHeader.Source

open Text Reader

/-! ## Two texts with a line break between them -/

theorem Reader.count_newline_emit (σ : Reader) (c : Char) :
    (σ.emit c).count .newline = if c = '\n' then 1 else 0 := by
  by_cases hbreak : c = '\n'
  · subst hbreak
    cases σ <;> rfl
  · have hcode : Mark.ofCode c ≠ .newline := by
      unfold Mark.ofCode
      split
      · nofun
      · split <;> nofun
    cases σ <;> grind [emit, codeMarks]

/-- Every line break is marked, also those inside comments. -/
theorem Reader.count_newline_run (σ : Reader) (cs : List Char) :
    (σ.run cs).count .newline = cs.count '\n' := by
  induction cs generalizing σ with
  | nil => cases σ <;> rfl
  | cons c cs ih =>
      rw [run, List.count_append, count_newline_emit, ih, List.count_cons, Nat.add_comm]
      simp

theorem linesOf_append_break (n : ℕ) (pending : List Char) (ms rest : List Mark) :
    linesOf n pending (ms ++ .newline :: rest) =
      linesOf n pending ms ++ linesOf (n + ms.count .newline + 1) [] rest := by
  induction ms generalizing n pending with
  | nil => rfl
  | cons m ms ih =>
      cases m with
      | plain c => simp [linesOf, ih]
      | stop c => simp [linesOf, ih]
      | close => simp [linesOf, ih]
      | newline => simp [linesOf, ih, Nat.add_comm, Nat.add_left_comm]

theorem linesOf_run_append_newline (σ : Reader) (n : ℕ) (cs ds : List Char) :
    linesOf n [] (σ.run (cs ++ '\n' :: ds)) =
      linesOf n [] (σ.run cs) ++
        linesOf (n + cs.count '\n' + 1) [] ((cs.foldl next σ).nextLine.run ds) := by
  rw [run_append_newline, linesOf_append_break, count_newline_run]

theorem lineOf?_add (n k : ℕ) (cs : List Char) :
    lineOf? (n + k) cs = (lineOf? n cs).map (Line.renumbered (· + k)) := by
  unfold lineOf?
  by_cases hempty : trim cs = [] <;> simp [hempty, Line.renumbered]

theorem linesOf_add (n k : ℕ) (pending : List Char) (ms : List Mark) :
    linesOf (n + k) pending ms = (linesOf n pending ms).map (Line.renumbered (· + k)) := by
  induction ms generalizing n pending with
  | nil => simp [linesOf, lineOf?_add, Option.toList_map]
  | cons m ms ih =>
      cases m with
      | plain c => simp [linesOf, ih]
      | stop c => simp [linesOf, ih, lineOf?_add, Option.toList_map]
      | close => simp [linesOf, ih, lineOf?_add, Option.toList_map, Line.renumbered]
      | newline => simp [linesOf, ← ih, lineOf?_add, Option.toList_map, Nat.add_right_comm]

/-! ## Characters of a physical line -/

/-- The character that a mark stands for. -/
def Mark.char : Mark → Char
  | .plain c => c
  | .stop c => c
  | .close => '}'
  | .newline => '\n'

@[simp] theorem Mark.char_plain (c : Char) : (plain c).char = c := rfl

@[simp] theorem Mark.char_newline : newline.char = '\n' := rfl

@[simp] theorem Mark.char_ofCode (c : Char) : (ofCode c).char = c := by
  unfold ofCode
  split
  · exact Eq.symm ‹_›
  · split <;> rfl

/-- Marking only leaves characters out. -/
theorem map_char_marks_sublist (mode : Mode) (cs : List Char) :
    ((marks mode cs).map Mark.char).Sublist cs := by
  fun_induction marks mode cs <;> simp_all

/-- The characters are the given ones, some blanks left out. -/
structure DropsBlanks (kept cs : List Char) : Prop where
  sublist : kept.Sublist cs
  filter_eq : kept.filter (!isBlank ·) = cs.filter (!isBlank ·)

namespace DropsBlanks

theorem append {kept cs kept' cs' : List Char} (h : DropsBlanks kept cs)
    (h' : DropsBlanks kept' cs') : DropsBlanks (kept ++ kept') (cs ++ cs') where
  sublist := h.sublist.append h'.sublist
  filter_eq := by rw [List.filter_append, List.filter_append, h.filter_eq, h'.filter_eq]

theorem cons {kept cs : List Char} (h : DropsBlanks kept cs) (c : Char) :
    DropsBlanks (c :: kept) (c :: cs) :=
  append ⟨List.Sublist.refl [c], rfl⟩ h

theorem reverse {kept cs : List Char} (h : DropsBlanks kept cs) :
    DropsBlanks kept.reverse cs.reverse where
  sublist := h.sublist.reverse
  filter_eq := by rw [List.filter_reverse, List.filter_reverse, h.filter_eq]

theorem trans {kept cs ds : List Char} (h : DropsBlanks kept cs) (h' : DropsBlanks cs ds) :
    DropsBlanks kept ds :=
  ⟨h.sublist.trans h'.sublist, h.filter_eq.trans h'.filter_eq⟩

end DropsBlanks

theorem dropsBlanks_skipBlanks (cs : List Char) : DropsBlanks (skipBlanks cs) cs := by
  refine ⟨List.dropWhile_sublist _, ?_⟩
  have hblanks : (cs.takeWhile isBlank).filter (!isBlank ·) = [] := by
    have hall := List.all_eq_true.1 (List.all_takeWhile (p := isBlank) (l := cs))
    exact List.filter_eq_nil_iff.2 fun c hc ↦ by simp [hall c hc]
  calc (skipBlanks cs).filter (!isBlank ·)
      = (cs.takeWhile isBlank ++ cs.dropWhile isBlank).filter (!isBlank ·) := by
        rw [List.filter_append, hblanks, List.nil_append, skipBlanks]
    _ = cs.filter (!isBlank ·) := by rw [List.takeWhile_append_dropWhile]

theorem dropsBlanks_trim (cs : List Char) : DropsBlanks (trim cs) cs := by
  have hback := (dropsBlanks_skipBlanks (skipBlanks cs).reverse).reverse
  rw [List.reverse_reverse] at hback
  exact hback.trans (dropsBlanks_skipBlanks cs)

/-- What the given lines say, one after the other. -/
def said (lines : List Line) : List Char :=
  lines.flatMap (·.text.toList)

theorem said_append (lines more : List Line) : said (lines ++ more) = said lines ++ said more :=
  List.flatMap_append

theorem said_lineOf? (n : ℕ) (cs : List Char) : said (lineOf? n cs).toList = trim cs := by
  by_cases hempty : trim cs = [] <;> simp [said, lineOf?, hempty]

/-- Cutting a marked text into lines only leaves blanks out. -/
theorem dropsBlanks_linesOf (n : ℕ) (pending : List Char) (ms : List Mark) :
    DropsBlanks (said (linesOf n pending ms)) (pending.reverse ++ ms.map Mark.char) := by
  induction ms generalizing n pending with
  | nil =>
      rw [linesOf, said_lineOf?, List.map_nil, List.append_nil]
      exact dropsBlanks_trim _
  | cons m ms ih =>
      have hpending := dropsBlanks_trim pending.reverse
      cases m with
      | plain c => simpa [linesOf] using ih n (c :: pending)
      | stop c =>
          have hline := dropsBlanks_trim (c :: pending).reverse
          rw [linesOf, said_append, said_lineOf?]
          simpa [Mark.char] using hline.append (ih n [])
      | close =>
          rw [linesOf, said_append, said_lineOf?]
          have hclose := hpending.append ((ih n []).cons '}')
          simpa [said, Mark.char] using hclose
      | newline =>
          rw [linesOf, said_append, said_lineOf?]
          have hbreak : DropsBlanks [] ['\n'] := ⟨List.nil_sublist _, by decide⟩
          exact hpending.append (hbreak.append (ih (n + 1) []))

/-- What the lines with the given number say, one after the other. -/
def saidOn (number : ℕ) (lines : List Line) : List Char :=
  said (lines.filter (·.number = number))

theorem saidOn_append (number : ℕ) (lines more : List Line) :
    saidOn number (lines ++ more) = saidOn number lines ++ saidOn number more := by
  rw [saidOn, List.filter_append, said_append]
  rfl

theorem saidOn_of_forall_eq {number : ℕ} {lines : List Line}
    (h : ∀ l ∈ lines, l.number = number) : saidOn number lines = said lines := by
  rw [saidOn, List.filter_eq_self.2 (by simpa using h)]

theorem saidOn_of_forall_ne {number : ℕ} {lines : List Line}
    (h : ∀ l ∈ lines, l.number ≠ number) : saidOn number lines = [] := by
  rw [saidOn, List.filter_eq_nil_iff.2 (by simpa using h)]
  rfl

theorem lineCount_le_one {cs : List Char} (h : '\n' ∉ cs) : lineCount cs ≤ 1 := by
  induction cs with
  | nil => exact Nat.zero_le 1
  | cons c cs ih =>
      rw [List.mem_cons, not_or] at h
      rw [lineCount_cons (Ne.symm h.1)]
      exact Nat.max_le.2 ⟨Nat.le_refl 1, ih h.2⟩

/-- A reader that remembers no character goes on as in a text that starts there. -/
theorem run_eq_marks {σ : Reader} (h : σ.recent = []) (cs : List Char) :
    σ.run cs = marks σ.mode cs := by
  have hmarks := marks_recent cs σ
  cases σ <;> first | exact hmarks.symm | exact nomatch h

theorem recent_nextLine (σ : Reader) : σ.nextLine.recent = [] := by
  cases σ <;> rfl

theorem number_eq_of_unbroken {σ : Reader} (hσ : σ.recent = []) {cs : List Char}
    (hbreak : '\n' ∉ cs) {n : ℕ} {l : Line} (hl : l ∈ linesOf n [] (σ.run cs)) :
    l.number = n := by
  rw [run_eq_marks hσ] at hl
  have hbounds := number_bounds_of_mem_linesOf hl
  have hmarked := markedLines_marks_le σ.mode cs
  have hcount := lineCount_le_one hbreak
  rw [List.length_nil] at hbounds
  omega

theorem saidOn_unbroken {σ : Reader} (hσ : σ.recent = []) {cs : List Char}
    (hbreak : '\n' ∉ cs) (n : ℕ) : (saidOn n (linesOf n [] (σ.run cs))).Sublist cs := by
  rw [saidOn_of_forall_eq fun l hl ↦ number_eq_of_unbroken hσ hbreak hl, run_eq_marks hσ]
  exact (dropsBlanks_linesOf n [] _).sublist.trans (map_char_marks_sublist σ.mode cs)

/-- The lines with one number say nothing but what stands on the physical line with that number,
where the first physical line has the number `n`. -/
theorem exists_physical_line {σ : Reader} (hσ : σ.recent = []) (cs : List Char) {n : ℕ} {l : Line}
    (hl : l ∈ linesOf n [] (σ.run cs)) :
    n ≤ l.number ∧ ∃ physical, (cs.splitOn '\n')[l.number - n]? = some physical ∧
      (saidOn l.number (linesOf n [] (σ.run cs))).Sublist physical := by
  by_cases hbreak : '\n' ∈ cs
  · obtain ⟨first, rest, rfl, hfirst⟩ := List.eq_append_cons_of_mem hbreak
    let τ := (first.foldl next σ).nextLine
    have hlines : linesOf n [] (σ.run (first ++ '\n' :: rest)) =
        linesOf n [] (σ.run first) ++ linesOf (n + 1) [] (τ.run rest) := by
      rw [linesOf_run_append_newline, List.count_eq_zero_of_not_mem hfirst, Nat.add_zero]
    have hnumber : ∀ k ∈ linesOf n [] (σ.run first), k.number = n := fun k hk ↦
      number_eq_of_unbroken hσ hfirst hk
    have hlater : ∀ k ∈ linesOf (n + 1) [] (τ.run rest), n + 1 ≤ k.number := fun k hk ↦
      (number_bounds_of_mem_linesOf hk).1
    rw [hlines, List.mem_append] at hl
    rw [hlines, saidOn_append, List.splitOn_append_cons_self, List.splitOn_eq_singleton hfirst,
      List.singleton_append]
    rcases hl with hl | hl
    · obtain rfl := hnumber l hl
      refine ⟨Nat.le_refl _, first, by rw [Nat.sub_self, List.getElem?_cons_zero], ?_⟩
      rw [saidOn_of_forall_ne fun k hk ↦ Nat.ne_of_gt (hlater k hk), List.append_nil]
      exact saidOn_unbroken hσ hfirst _
    · obtain ⟨hle, physical, hphysical, hsaid⟩ := exists_physical_line (recent_nextLine _) rest hl
      have hindex : l.number - n = l.number - (n + 1) + 1 := by omega
      refine ⟨by omega, physical, by rwa [hindex, List.getElem?_cons_succ], ?_⟩
      rw [saidOn_of_forall_ne fun k hk ↦ by rw [hnumber k hk]; omega, List.nil_append]
      exact hsaid
  · obtain rfl := number_eq_of_unbroken hσ hbreak hl
    refine ⟨Nat.le_refl _, cs, ?_, saidOn_unbroken hσ hbreak _⟩
    rw [Nat.sub_self, List.splitOn_eq_singleton hbreak, List.getElem?_cons_zero]
termination_by cs.length

/-! ## Texts put together -/

def Reader.inBlockComment : Reader → Bool
  | blockComment => true
  | star => true
  | _ => false

/-- The text breaks off inside a block comment. -/
def EndsInBlockComment (cs : List Char) : Prop :=
  (readerAfter cs).inBlockComment = true

instance (cs : List Char) : Decidable (EndsInBlockComment cs) :=
  inferInstanceAs (Decidable (_ = true))

/-- The lines of a text that starts in the given surroundings, numbered from one. -/
def normalizeFrom (mode : Mode) (text : String) : List Line :=
  linesOf 1 [] (marks mode text.toList)

/-- The surroundings in which the line after the given text starts. -/
def modeAfter (cs : List Char) : Mode :=
  if EndsInBlockComment cs then .blockComment else .code

theorem mode_nextLine_readerAfter (cs : List Char) :
    (readerAfter cs).nextLine.mode = modeAfter cs := by
  have hmode (σ : Reader) :
      σ.nextLine.mode = if σ.inBlockComment = true then .blockComment else .code := by
    cases σ <;> rfl
  exact hmode (readerAfter cs)

/-- The line break forgets all that was read before it, open block comments apart. -/
theorem normalize_append_break (a b : String) :
    normalize (a ++ "\n" ++ b) = normalize a ++
      (normalizeFrom (modeAfter a.toList) b).map
        (Line.renumbered (· + (1 + a.toList.count '\n'))) := by
  have htext : (a ++ "\n" ++ b).toList = a.toList ++ '\n' :: b.toList := by
    simp [String.toList_append]
  have hnumber : 1 + a.toList.count '\n' + 1 = 1 + (1 + a.toList.count '\n') := by omega
  rw [normalize, normalize, normalizeFrom, htext, marks_code_eq_run, marks_code_eq_run,
    linesOf_run_append_newline, run_eq_marks (recent_nextLine _), ← linesOf_add, hnumber,
    ← mode_nextLine_readerAfter]
  rfl

/-- A text is cut into lines one physical line after the other.  Only an open block comment makes a
difference for the lines after it, and all that the lines with one number say stands on the physical
line with that number. -/
theorem normalize_line_by_line :
    (∀ a b : String, ¬EndsInBlockComment a.toList →
      normalize (a ++ "\n" ++ b) = normalize a ++
        (normalize b).map (Line.renumbered (· + (1 + a.toList.count '\n')))) ∧
    (∀ a b : String, EndsInBlockComment a.toList →
      normalize (a ++ "\n" ++ b) = normalize a ++
        (normalizeFrom .blockComment b).map
          (Line.renumbered (· + (1 + a.toList.count '\n')))) ∧
    ∀ (text : String), ∀ l ∈ normalize text, 1 ≤ l.number ∧
      ∃ physical, (text.toList.splitOn '\n')[l.number - 1]? = some physical ∧
        (saidOn l.number (normalize text)).Sublist physical := by
  refine ⟨fun a b ha ↦ ?_, fun a b ha ↦ ?_, fun text l hl ↦ ?_⟩
  · rw [normalize_append_break, modeAfter, if_neg ha]
    rfl
  · rw [normalize_append_break, modeAfter, if_pos ha]
  · rw [normalize, marks_code_eq_run] at hl ⊢
    exact exists_physical_line rfl _ hl

/-- A line that ends with a backslash in a literal, and a line after which a star and a slash on two
lines do not close the comment. -/
theorem normalize_line_by_line_open :
    ¬EndsInBlockComment "a; \"b;\\".toList ∧
      normalize ("a; \"b;\\" ++ "\n" ++ "c\"; d") =
        [⟨"a;", 1⟩, ⟨"\"b;\\", 1⟩, ⟨"c\"; d", 2⟩] ∧
      EndsInBlockComment "a; /* *".toList ∧
      normalize ("a; /* *" ++ "\n" ++ "/ b; */ c") = [⟨"a;", 1⟩, ⟨"c", 2⟩] ∧
      ∃ physical, ("a; /* *\n/ b; */ c".toList.splitOn '\n')[2 - 1]? = some physical ∧
        (saidOn 2 (normalize "a; /* *\n/ b; */ c")).Sublist physical := by
  obtain ⟨hfresh, hopen, hphysical⟩ := normalize_line_by_line
  refine ⟨by decide, ?_, by decide, ?_, ?_⟩
  · rw [hfresh _ _ (by decide)]
    decide +kernel
  · rw [hopen _ _ (by decide)]
    decide +kernel
  · exact (hphysical _ ⟨"c", 2⟩ (by decide +kernel)).2

end ProtoHeader.Source

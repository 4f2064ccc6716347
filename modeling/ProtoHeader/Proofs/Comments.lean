import Mathlib.Data.List.Infix
import Mathlib.Data.List.TakeWhile
import ProtoHeader.Proofs.Reflow
import ProtoHeader.Proofs.RespacedLines

/-!
# Comments beside blanks

Nothing is left of a comment, so that the characters before it and after it come to stand side by
side.  A comment inside a word or between two words therefore does not separate what a blank in its
place would.  Beside a blank, or where a line starts or ends anyway, there is no difference, since a
gap may be wider or narrower.
-/

namespace ProtoHeader

open Text Grammar

namespace Source

open Reader

/-! ## Trimmed texts with a gap -/

theorem trim_append_blanks {blanks : List Char} (h : ∀ c ∈ blanks, isBlank c = true)
    (cs : List Char) : trim (cs ++ blanks) = trim cs := by
  induction blanks using List.reverseRecOn with
  | nil => rw [List.append_nil]
  | append_singleton blanks b ih =>
      have hb : isBlank b = true := h b (by simp)
      rw [← List.append_assoc, trim_append_blank hb]
      exact ih fun c hc ↦ h c (List.mem_append_left _ hc)

theorem skipBlanks_append_of_ne_nil {cs : List Char} (h : skipBlanks cs ≠ []) (rest : List Char) :
    skipBlanks (cs ++ rest) = skipBlanks cs ++ rest := by
  unfold skipBlanks at h ⊢
  rw [List.dropWhile_append, if_neg (by simpa using h)]

theorem trim_append_of_ne_nil {before after : List Char} (hbefore : skipBlanks before ≠ [])
    (hafter : skipBlanks after.reverse ≠ []) (middle : List Char) :
    trim (before ++ (middle ++ after)) =
      skipBlanks before ++ (middle ++ (skipBlanks after.reverse).reverse) := by
  rw [trim, skipBlanks_append_of_ne_nil hbefore, List.reverse_append, List.reverse_append,
    List.append_assoc, skipBlanks_append_of_ne_nil hafter]
  simp

theorem countP_isQuote_skipBlanks (cs : List Char) :
    (skipBlanks cs).countP isQuote = cs.countP isQuote := by
  induction cs with
  | nil => rfl
  | cons c cs ih =>
      by_cases hc : isBlank c = true
      · simpa [skipBlanks, hc, isQuote_of_isBlank hc] using ih
      · rw [skipBlanks_cons_of_false (by simpa using hc)]

/-- A gap of a line stays one when the line is trimmed, or is lost. -/
theorem respaced_trim {gap gap' : List Char} (hgap : IsGap gap) (hgap' : IsGap gap')
    {before : List Char} (hquotes : before.countP isQuote ≠ 1) (after : List Char) :
    Respaced 0 (trim (before ++ (gap ++ after))) (trim (before ++ (gap' ++ after))) := by
  -- at either end of the line both gaps are cut off
  by_cases hbefore : skipBlanks before = []
  · have hblank := List.dropWhile_eq_nil_iff.mp hbefore
    rw [trim_blanks_append hblank, trim_blanks_append hblank, trim_blanks_append hgap.blank,
      trim_blanks_append hgap'.blank]
    exact .same 0 _
  by_cases hafter : skipBlanks after.reverse = []
  · have hblank : ∀ c ∈ after, isBlank c = true := by
      simpa using List.dropWhile_eq_nil_iff.mp hafter
    rw [← List.append_assoc, ← List.append_assoc, trim_append_blanks hblank,
      trim_append_blanks hblank, trim_append_blanks hgap.blank, trim_append_blanks hgap'.blank]
    exact .same 0 _
  · rw [trim_append_of_ne_nil hbefore hafter, trim_append_of_ne_nil hbefore hafter]
    apply Respaced.append hgap hgap'
    rwa [Nat.zero_add, countP_isQuote_skipBlanks]

/-! ## Lines that are still to be read -/

theorem respaced_lineOf? {cs cs' : List Char} (h : Respaced 0 (trim cs) (trim cs')) (n : ℕ) :
    RespacedLines (lineOf? n cs).toList (lineOf? n cs').toList := by
  have hempty : trim cs = [] ↔ trim cs' = [] := by
    obtain heq | ⟨b, ds, b', ds', heq, heq', -⟩ | ⟨c, ds, ds', heq, heq', -⟩ := h.start_cases
    · rw [heq]
    · simp [heq, heq']
    · simp [heq, heq']
  unfold lineOf?
  by_cases hcs : trim cs = []
  · simp [hcs, hempty.mp hcs]
  · have hcs' : trim cs' ≠ [] := fun h ↦ hcs (hempty.mpr h)
    have hline : Line.Respaced ⟨String.ofList (trim cs), n⟩ ⟨String.ofList (trim cs'), n⟩ :=
      ⟨rfl, by simpa using h⟩
    simpa [hcs, hcs'] using hline

/-- Lines that are begun with characters between which only a gap makes a difference. -/
theorem respaced_linesOf {pending pending' : List Char}
    (h : ∀ after, Respaced 0 (trim (pending.reverse ++ after)) (trim (pending'.reverse ++ after)))
    (n : ℕ) (ms : List Mark) : RespacedLines (linesOf n pending ms) (linesOf n pending' ms) := by
  have hline := respaced_lineOf? (by simpa using h []) n
  induction ms generalizing pending pending' with
  | nil => exact hline
  | cons m ms ih =>
      cases m with
      | plain c =>
          have hnext (after : List Char) : Respaced 0 (trim ((c :: pending).reverse ++ after))
              (trim ((c :: pending').reverse ++ after)) := by simpa using h (c :: after)
          exact ih hnext (respaced_lineOf? (by simpa using hnext []) n)
      | stop c =>
          have hstop := respaced_lineOf? (by simpa using h [c]) n
          exact List.rel_append (by simpa using hstop) (RespacedLines.refl _)
      | close => exact List.rel_append hline (RespacedLines.refl _)
      | newline => exact List.rel_append hline (RespacedLines.refl _)

/-- The characters read of the current line, last one first, after one more mark. -/
def pushed (pending : List Char) : Mark → List Char
  | .plain c => c :: pending
  | _ => []

theorem exists_linesOf_append (n : ℕ) (pending : List Char) (first : List Mark) :
    ∃ finished number, ∀ rest, linesOf n pending (first ++ rest) =
      finished ++ linesOf number (first.foldl pushed pending) rest := by
  induction first generalizing n pending with
  | nil => exact ⟨[], n, fun rest ↦ rfl⟩
  | cons m first ih =>
      cases m with
      | plain c => exact ih n (c :: pending)
      | stop c =>
          obtain ⟨finished, number, hrest⟩ := ih n []
          refine ⟨(lineOf? n (c :: pending).reverse).toList ++ finished, number, fun rest ↦ ?_⟩
          simp [linesOf, pushed, hrest]
      | close =>
          obtain ⟨finished, number, hrest⟩ := ih n []
          refine ⟨(lineOf? n pending.reverse).toList ++ ⟨"\x7d", n⟩ :: finished, number,
            fun rest ↦ ?_⟩
          simp [linesOf, pushed, hrest]
      | newline =>
          obtain ⟨finished, number, hrest⟩ := ih (n + 1) []
          refine ⟨(lineOf? n pending.reverse).toList ++ finished, number, fun rest ↦ ?_⟩
          simp [linesOf, pushed, hrest]

/-! ## Quotes outside literals -/

/-- Inside a literal the current line has a quote, and outside it does not have exactly one. -/
def Reader.QuotesOk (σ : Reader) (pending : List Char) : Prop :=
  match σ with
  | literal quote | escape quote => isQuote quote = true ∧ 1 ≤ pending.countP isQuote
  | _ => pending.countP isQuote ≠ 1

theorem quotesOk_code_cons {pending : List Char} (h : pending.countP isQuote ≠ 1) {c : Char}
    (hbreak : c ≠ '\n') :
    (code.next c).QuotesOk ((code.emit c).foldl pushed pending) := by
  by_cases hslash : c = '/'
  · subst hslash
    exact h
  by_cases hquote : c = '"' ∨ c = '\''
  · have hisQuote : isQuote c = true := isQuote_iff.mpr hquote
    have hmark : Mark.ofCode c = .plain c := by rcases hquote with rfl | rfl <;> rfl
    simp [next, emit, Reader.afterCode, codeMarks, hbreak, hslash, hquote, hmark, pushed, QuotesOk,
      hisQuote]
  · have hisQuote : isQuote c = false := Bool.eq_false_iff.mpr fun h ↦ hquote (isQuote_iff.mp h)
    have hnext : code.next c = code := by
      simp [next, Reader.afterCode, hbreak, hslash, hquote]
    rw [hnext]
    by_cases hclose : c = '}'
    · subst hclose
      simp [emit, codeMarks, Mark.ofCode, pushed, QuotesOk]
    by_cases hstop : c = ';' ∨ c = '{'
    · simp [emit, codeMarks, Mark.ofCode, hbreak, hslash, hclose, hstop, pushed, QuotesOk]
    · simpa [emit, codeMarks, Mark.ofCode, hbreak, hslash, hclose, hstop, pushed, QuotesOk,
        hisQuote] using h

theorem Reader.QuotesOk.step {σ : Reader} {pending : List Char} (h : σ.QuotesOk pending)
    (c : Char) : (σ.next c).QuotesOk ((σ.emit c).foldl pushed pending) := by
  by_cases hbreak : c = '\n'
  · subst hbreak
    rw [next_newline, emit_newline]
    cases σ <;> simp [Reader.nextLine, held, pushed, QuotesOk]
  cases σ with
  | code => exact quotesOk_code_cons h hbreak
  | slash =>
      by_cases hslash : c = '/'
      · subst hslash
        exact h
      by_cases hstar : c = '*'
      · subst hstar
        exact h
      · have hnext : slash.next c = code.next c := by simp [next, hbreak, hslash, hstar]
        have hemit : slash.emit c = .plain '/' :: code.emit c := by
          simp [emit, hbreak, hslash, hstar]
        have hcount : ('/' :: pending).countP isQuote ≠ 1 := by
          rwa [List.countP_cons_of_neg (by decide)]
        rw [hnext, hemit]
        exact quotesOk_code_cons hcount hbreak
  | literal quote =>
      obtain ⟨hquote, hcount⟩ := h
      by_cases hslash : c = '\\'
      · subst hslash
        refine ⟨hquote, ?_⟩
        change 1 ≤ ('\\' :: pending).countP isQuote
        rwa [List.countP_cons_of_neg (by decide)]
      by_cases hend : c = quote
      · -- the closing quote is at least the second one
        subst hend
        simp only [next, emit, hbreak, hslash, if_true, if_false, List.foldl, pushed, QuotesOk]
        rw [List.countP_cons_of_pos hquote]
        omega
      · have hnext : (literal quote).next c = literal quote := by
          simp [next, hbreak, hslash, hend]
        rw [hnext]
        refine ⟨hquote, ?_⟩
        simp only [emit, hbreak, if_false, List.foldl, pushed, List.countP_cons]
        omega
  | escape quote =>
      obtain ⟨hquote, hcount⟩ := h
      have hnext : (escape quote).next c = literal quote := by simp [next, hbreak]
      rw [hnext]
      refine ⟨hquote, ?_⟩
      simp only [emit, hbreak, if_false, List.foldl, pushed, List.countP_cons]
      omega
  | lineComment => simpa [next, emit, hbreak] using h
  | blockComment =>
      by_cases hstar : c = '*'
      · subst hstar
        exact h
      · simpa [next, emit, hbreak, hstar] using h
  | star =>
      by_cases hslash : c = '/'
      · subst hslash
        exact h
      by_cases hstar : c = '*'
      · subst hstar
        exact h
      · have hnext : star.next c = blockComment := by simp [next, hbreak, hslash, hstar]
        have hemit : star.emit c = [] := by simp [emit, hbreak]
        rw [hnext, hemit]
        exact h

theorem Reader.QuotesOk.run {σ : Reader} {pending : List Char} (h : σ.QuotesOk pending)
    (cs : List Char) : (cs.foldl next σ).QuotesOk ((σ.emitted cs).foldl pushed pending) := by
  induction cs generalizing σ pending with
  | nil => exact h
  | cons c cs ih =>
      rw [emitted, List.foldl_append]
      exact ih (h.step c)

theorem marks_of_code {before : List Char} (h : readerAfter before = .code) :
    marks .code before = code.emitted before := by
  have hmarks := marks_code_append before []
  rwa [List.append_nil, h, show code.run [] = [] from rfl, List.append_nil] at hmarks

/-- Outside literals the current line does not have exactly one quote, so that what comes next does
not stand between the first two quotes. -/
theorem countP_isQuote_ne_one {before : List Char} (h : readerAfter before = .code) :
    ((marks .code before).foldl pushed []).countP isQuote ≠ 1 := by
  have hstart : code.QuotesOk [] := by simp [QuotesOk]
  have hend : (readerAfter before).QuotesOk _ := hstart.run before
  rw [h] at hend
  rwa [marks_of_code h]

/-! ## Comments -/

/-- A whole comment on one line, from its opening mark to its first closing one. -/
def IsComment (comment : List Char) : Prop :=
  ∃ body, comment = '/' :: '*' :: (body ++ ['*', '/']) ∧ '\n' ∉ body ∧ ¬['*', '/'] <:+: body

theorem recent_next_suffix {σ : Reader} (hσ : σ = blockComment ∨ σ = star) {c : Char}
    (hbreak : c ≠ '\n') (cs : List Char) (hopen : ¬['*', '/'] <:+: σ.recent ++ c :: cs) :
    (σ.next c = blockComment ∨ σ.next c = star) ∧
      (σ.next c).recent ++ cs <:+ σ.recent ++ c :: cs := by
  rcases hσ with rfl | rfl
  · by_cases hstar : c = '*'
    · subst hstar
      exact ⟨.inr rfl, List.suffix_refl _⟩
    · have hnext : blockComment.next c = blockComment := by simp [next, hbreak, hstar]
      rw [hnext]
      exact ⟨.inl rfl, List.suffix_cons c cs⟩
  · by_cases hslash : c = '/'
    · subst hslash
      exact absurd ⟨[], cs, rfl⟩ hopen
    by_cases hstar : c = '*'
    · subst hstar
      exact ⟨.inr rfl, List.suffix_cons '*' ('*' :: cs)⟩
    · have hnext : star.next c = blockComment := by simp [next, hbreak, hslash, hstar]
      rw [hnext]
      exact ⟨.inl rfl, List.suffix_append ['*', c] cs⟩

/-- Without a closing mark a comment goes on, and nothing is kept of it. -/
theorem reader_inside_comment {σ : Reader} (hσ : σ = blockComment ∨ σ = star) {body : List Char}
    (hbreak : '\n' ∉ body) (hopen : ¬['*', '/'] <:+: σ.recent ++ body) :
    (body.foldl next σ = blockComment ∨ body.foldl next σ = star) ∧ σ.emitted body = [] := by
  induction body generalizing σ with
  | nil => exact ⟨hσ, rfl⟩
  | cons c body ih =>
      have hc : c ≠ '\n' := fun h ↦ hbreak (h ▸ List.mem_cons_self)
      obtain ⟨hnext, hsuffix⟩ := recent_next_suffix hσ hc body hopen
      obtain ⟨hend, hemitted⟩ := ih hnext (fun h ↦ hbreak (List.mem_cons_of_mem c h))
        fun h ↦ hopen (h.trans hsuffix.isInfix)
      have hemit : σ.emit c = [] := by
        rcases hσ with rfl | rfl <;> simp [emit, hc]
      refine ⟨hend, ?_⟩
      rw [emitted, hemit, hemitted, List.nil_append]

theorem IsComment.run_append {comment : List Char} (h : IsComment comment) (rest : List Char) :
    code.run (comment ++ rest) = code.run rest := by
  obtain ⟨body, rfl, hbreak, hopen⟩ := h
  obtain ⟨hend, hemitted⟩ := reader_inside_comment (.inl rfl) hbreak hopen
  change blockComment.run (body ++ ['*', '/'] ++ rest) = code.run rest
  rw [List.append_assoc, Reader.run_append, hemitted, List.nil_append]
  rcases hend with hend | hend
  · rw [hend]
    rfl
  · rw [hend]
    rfl

theorem IsComment.marks_append {comment : List Char} (h : IsComment comment) {before : List Char}
    (hbefore : readerAfter before = .code) (after : List Char) :
    marks .code (before ++ (comment ++ after)) = marks .code (before ++ after) := by
  rw [marks_code_append, marks_code_append, hbefore, h.run_append]

theorem IsComment.normalize_append {before comment : String} (h : IsComment comment.toList)
    (hbefore : readerAfter before.toList = .code) (after : String) :
    Source.normalize (before ++ comment ++ after) = Source.normalize (before ++ after) := by
  unfold Source.normalize
  rw [String.append_assoc, String.toList_append, String.toList_append, String.toList_append,
    h.marks_append hbefore]

/-! ## A blank between two texts -/

/-- After the mark a line starts, or stands a blank. -/
def Mark.leavesGap : Mark → Bool
  | .plain c => isBlank c
  | _ => true

/-- Before the mark a line ends, or it is a blank.  A semicolon or an opening brace belongs to the
line that it ends. -/
def Mark.takesGap : Mark → Bool
  | .plain c => isBlank c
  | .stop _ => false
  | _ => true

/-- Comments aside, the first text ends with a blank or the start of a line, or the second one
starts with a blank or the end of a line. -/
def IsSeam (before after : List Char) : Prop :=
  (marks .code before).getLast?.all Mark.leavesGap = true ∨
    (marks .code after).head?.all Mark.takesGap = true

instance (before after : List Char) : Decidable (IsSeam before after) :=
  inferInstanceAs (Decidable (_ ∨ _))

theorem isGap_singleton {b : Char} (hb : isBlank b = true) : IsGap [b] :=
  ⟨List.cons_ne_nil _ _, by simp [hb]⟩

theorem isGap_pair {b b' : Char} (hb : isBlank b = true) (hb' : isBlank b' = true) :
    IsGap [b, b'] :=
  ⟨List.cons_ne_nil _ _, by simp [hb, hb']⟩

theorem pushed_of_leavesGap {ms : List Mark} (h : ms.getLast?.all Mark.leavesGap = true) :
    ms.foldl pushed [] = [] ∨
      ∃ b pending, ms.foldl pushed [] = b :: pending ∧ isBlank b = true := by
  cases ms using List.reverseRecOn with
  | nil => exact .inl rfl
  | append_singleton ms m =>
      rw [List.foldl_append]
      cases m with
      | plain b => exact .inr ⟨b, ms.foldl pushed [], rfl, by simpa [Mark.leavesGap] using h⟩
      | stop c => exact .inl rfl
      | close => exact .inl rfl
      | newline => exact .inl rfl

/-- A space at the start of a line or after a blank. -/
theorem respaced_space_after {pending : List Char} (hquotes : pending.countP isQuote ≠ 1)
    (hgap : pending = [] ∨ ∃ b before, pending = b :: before ∧ isBlank b = true) (n : ℕ)
    (ms : List Mark) : RespacedLines (linesOf n pending ms) (linesOf n (' ' :: pending) ms) := by
  apply respaced_linesOf
  intro after
  obtain rfl | ⟨b, before, rfl, hb⟩ := hgap
  · have hspace : ∀ c ∈ [' '], isBlank c = true := by simp [isBlank_space]
    change Respaced 0 (trim after) (trim ([' '] ++ after))
    rw [trim_blanks_append hspace]
    exact .same 0 _
  · have hbefore : before.reverse.countP isQuote ≠ 1 := by
      rw [List.countP_cons_of_neg (by simp [isQuote_of_isBlank hb])] at hquotes
      rwa [List.countP_reverse]
    simpa using respaced_trim (isGap_singleton hb) (isGap_pair hb isBlank_space) hbefore after

/-- A space at the end of a line or before a blank. -/
theorem respaced_space_before {pending : List Char} (hquotes : pending.countP isQuote ≠ 1)
    {ms : List Mark} (hgap : ms.head?.all Mark.takesGap = true) (n : ℕ) :
    RespacedLines (linesOf n pending ms) (linesOf n (' ' :: pending) ms) := by
  have hline : lineOf? n (' ' :: pending).reverse = lineOf? n pending.reverse := by
    rw [lineOf?, lineOf?, List.reverse_cons, trim_append_blank isBlank_space]
  cases ms with
  | nil =>
      rw [linesOf, linesOf, hline]
      exact .refl _
  | cons m ms =>
      cases m with
      | plain b =>
          have hb : isBlank b = true := hgap
          have hbefore : pending.reverse.countP isQuote ≠ 1 := by rwa [List.countP_reverse]
          change RespacedLines (linesOf n (b :: pending) ms) (linesOf n (b :: ' ' :: pending) ms)
          apply respaced_linesOf
          intro after
          simpa using respaced_trim (isGap_singleton hb) (isGap_pair isBlank_space hb) hbefore after
      | stop c => exact absurd hgap Bool.false_ne_true
      | close =>
          rw [linesOf, linesOf, hline]
          exact .refl _
      | newline =>
          rw [linesOf, linesOf, hline]
          exact .refl _

theorem respaced_linesOf_seam {before after : List Char} (hbefore : readerAfter before = .code)
    (hseam : IsSeam before after) :
    RespacedLines (linesOf 1 [] (marks .code (before ++ after)))
      (linesOf 1 [] (marks .code (before ++ ' ' :: after))) := by
  have hquotes := countP_isQuote_ne_one hbefore
  have hspace := run_code_blank isBlank_space (by decide) after
  rw [marks_code_append, marks_code_append, hbefore, hspace, ← marks_of_code hbefore,
    ← marks_code_eq_run]
  obtain ⟨finished, number, hlines⟩ := exists_linesOf_append 1 [] (marks .code before)
  rw [hlines, hlines]
  apply List.rel_append (RespacedLines.refl finished)
  rcases hseam with hleft | hright
  · exact respaced_space_after hquotes (pushed_of_leavesGap hleft) number _
  · exact respaced_space_before hquotes hright number

end Source

open Source

/-- A comment outside literals and other comments compiles as if it were not there, and as a blank
wherever there is a gap beside it or a line starts or ends there anyway. -/
theorem comment_dropped_blank_at_seams {before comment : String}
    (hcomment : IsComment comment.toList) (hbefore : readerAfter before.toList = .code)
    (after : String) :
    compileSchema (before ++ comment ++ after) = compileSchema (before ++ after) ∧
      (IsSeam before.toList after.toList →
        Alike (compileSchema (before ++ comment ++ after))
          (compileSchema (before ++ " " ++ after))) := by
  have hdropped : compileSchema (before ++ comment ++ after) = compileSchema (before ++ after) := by
    rw [compileSchema, compileSchema, Schema.ofText, Schema.ofText,
      hcomment.normalize_append hbefore]
  refine ⟨hdropped, fun hseam ↦ ?_⟩
  rw [hdropped]
  apply RespacedLines.compileSchema
  simpa [Source.normalize, String.toList_append] using respaced_linesOf_seam hbefore hseam

/-- A text up to the type of a field. -/
def typeText : String :=
  "syntax = \"proto3\"; package p; message M \x7b int32"

theorem readerAfter_typeText : readerAfter typeText.toList = .code := rfl

/-- A comment with quotes, braces and one star too many. -/
def markedComment : String :=
  "/* \"\x7d; '\x7b **/"

theorem isComment_markedComment : IsComment markedComment.toList :=
  ⟨" \"\x7d; '\x7b *".toList, by decide, by decide, by decide⟩

theorem comment_dropped_blank_at_seams_markedComment :
    IsComment markedComment.toList ∧ readerAfter typeText.toList = .code ∧
      IsSeam typeText.toList " x = 1; \x7d".toList ∧
      (compileSchema (typeText ++ " x = 1; \x7d")).isOk = true ∧
      compileSchema (typeText ++ markedComment ++ " x = 1; \x7d") =
        compileSchema (typeText ++ " x = 1; \x7d") ∧
      Alike (compileSchema (typeText ++ markedComment ++ " x = 1; \x7d"))
        (compileSchema (typeText ++ " " ++ " x = 1; \x7d")) := by
  have hseam : IsSeam typeText.toList " x = 1; \x7d".toList := by decide +kernel
  obtain ⟨hdropped, hblank⟩ :=
    comment_dropped_blank_at_seams isComment_markedComment readerAfter_typeText " x = 1; \x7d"
  exact ⟨isComment_markedComment, readerAfter_typeText, hseam, by decide +kernel, hdropped,
    hblank hseam⟩

/-- Between a type and a name a comment does not do for a blank: the field is not read at all. -/
theorem comment_joins_type_and_name :
    IsComment "/**/".toList ∧ readerAfter typeText.toList = .code ∧
      ¬Alike (compileSchema (typeText ++ "/**/" ++ "x = 1; \x7d"))
        (compileSchema (typeText ++ " " ++ "x = 1; \x7d")) := by
  refine ⟨⟨[], by decide, by decide, by decide⟩, readerAfter_typeText, fun h ↦ ?_⟩
  have hfields := congrArg (Option.map fun s ↦ s.messages.map (·.fields.length)) h.toOption_eq
  revert hfields
  decide +kernel

end ProtoHeader

import Mathlib.Logic.Relation
import ProtoHeader.Proofs.Reader

/-!
# Texts broken into lines elsewhere

Blanks after the end of a statement or in front of a closing brace, and carriage returns at the end
of a line, change the numbers of the lines that a text is cut into, but not what they say.
-/

namespace ProtoHeader.Source

open Text Reader

/-! ## Trimmed lines -/

theorem trim_append_blank {b : Char} (hb : isBlank b = true) (cs : List Char) :
    trim (cs ++ [b]) = trim cs := by
  unfold trim skipBlanks
  rw [List.dropWhile_append]
  cases hrest : cs.dropWhile isBlank with
  | nil => simp [hb]
  | cons c rest => simp [hb]

/-- What a line made of the given characters says, if it is not blank. -/
def lineText (cs : List Char) : List String :=
  (lineOf? 0 cs).toList.map (·.text)

theorem map_text_lineOf? (n : ℕ) (cs : List Char) :
    (lineOf? n cs).toList.map (·.text) = lineText cs := by
  by_cases hempty : trim cs = [] <;> simp [lineText, lineOf?, hempty]

theorem lineText_congr {cs ds : List Char} (h : trim cs = trim ds) : lineText cs = lineText ds := by
  simp [lineText, lineOf?, h]

theorem lineText_blanks {cs : List Char} (h : ∀ c ∈ cs, isBlank c = true) : lineText cs = [] := by
  rw [lineText, lineOf?_blanks h]
  rfl

/-! ## What the lines of a marked text say -/

def textsOf (pending : List Char) (ms : List Mark) : List String :=
  (linesOf 0 pending ms).map (·.text)

theorem map_text_linesOf (n : ℕ) (pending : List Char) (ms : List Mark) :
    (linesOf n pending ms).map (·.text) = textsOf pending ms := by
  unfold textsOf
  generalize 0 = k
  induction ms generalizing n k pending with
  | nil => simp [linesOf, map_text_lineOf?]
  | cons m ms ih =>
      cases m with
      | plain c => exact ih n (c :: pending) k
      | stop c => simp [linesOf, map_text_lineOf?, ih n [] k]
      | close => simp [linesOf, map_text_lineOf?, ih n [] k]
      | newline => simp [linesOf, map_text_lineOf?, ih (n + 1) [] (k + 1)]

theorem textsOf_nil (pending : List Char) : textsOf pending [] = lineText pending.reverse := by
  simp [textsOf, linesOf, map_text_lineOf?]

theorem textsOf_plain (pending : List Char) (c : Char) (ms : List Mark) :
    textsOf pending (.plain c :: ms) = textsOf (c :: pending) ms := rfl

theorem textsOf_stop (pending : List Char) (c : Char) (ms : List Mark) :
    textsOf pending (.stop c :: ms) = lineText (c :: pending).reverse ++ textsOf [] ms := by
  simp [textsOf, linesOf, map_text_lineOf?]

theorem textsOf_close (pending : List Char) (ms : List Mark) :
    textsOf pending (.close :: ms) = lineText pending.reverse ++ "\x7d" :: textsOf [] ms := by
  simp [textsOf, linesOf, map_text_lineOf?]

theorem textsOf_newline (pending : List Char) (ms : List Mark) :
    textsOf pending (.newline :: ms) = lineText pending.reverse ++ textsOf [] ms := by
  rw [textsOf, linesOf, List.map_append, map_text_lineOf?, map_text_linesOf]

theorem textsOf_append_congr {ms ms' : List Mark}
    (h : ∀ pending, textsOf pending ms = textsOf pending ms') (first : List Mark)
    (pending : List Char) : textsOf pending (first ++ ms) = textsOf pending (first ++ ms') := by
  induction first generalizing pending with
  | nil => exact h pending
  | cons m first ih =>
      cases m with
      | plain c => exact ih (c :: pending)
      | stop c => rw [List.cons_append, List.cons_append, textsOf_stop, textsOf_stop, ih]
      | close => rw [List.cons_append, List.cons_append, textsOf_close, textsOf_close, ih]
      | newline => rw [List.cons_append, List.cons_append, textsOf_newline, textsOf_newline, ih]

/-- Blanks at the start of a line are lost. -/
theorem textsOf_append_blanks {blanks : List Char} (h : ∀ c ∈ blanks, isBlank c = true)
    (pending : List Char) (ms : List Mark) :
    textsOf (pending ++ blanks) ms = textsOf pending ms := by
  have hline (cs : List Char) : lineText (cs ++ blanks).reverse = lineText cs.reverse := by
    apply lineText_congr
    rw [List.reverse_append]
    exact trim_blanks_append (by simpa using h)
  induction ms generalizing pending with
  | nil => rw [textsOf_nil, textsOf_nil, hline]
  | cons m ms ih =>
      cases m with
      | plain c => exact ih (c :: pending)
      | stop c => rw [textsOf_stop, textsOf_stop, ← List.cons_append, hline]
      | close => rw [textsOf_close, textsOf_close, hline]
      | newline => rw [textsOf_newline, textsOf_newline, hline]

/-! ## Blanks around the ends of statements -/

theorem run_code_blank {b : Char} (hb : isBlank b = true) (hbreak : b ≠ '\n') (cs : List Char) :
    code.run (b :: cs) = .plain b :: code.run cs := by
  have hordinary := isOrdinary_of_isBlank hb hbreak
  rw [← marks_code_eq_run, ← marks_code_eq_run]
  exact marks_ordinary (List.forall_mem_singleton.2 hordinary) cs

theorem run_code_newline (cs : List Char) : code.run ('\n' :: cs) = .newline :: code.run cs := rfl

theorem textsOf_run_blanks {blanks pending : List Char} (hblanks : ∀ c ∈ blanks, isBlank c = true)
    (hpending : ∀ c ∈ pending, isBlank c = true) (rest : List Char) :
    textsOf pending (code.run (blanks ++ rest)) = textsOf [] (code.run rest) := by
  induction blanks generalizing pending with
  | nil => exact textsOf_append_blanks hpending [] _
  | cons b blanks ih =>
      have hb := hblanks b List.mem_cons_self
      have htail : ∀ c ∈ blanks, isBlank c = true :=
        fun c hc ↦ hblanks c (List.mem_cons_of_mem b hc)
      rw [List.cons_append]
      by_cases hbreak : b = '\n'
      · subst hbreak
        rw [run_code_newline, textsOf_newline, lineText_blanks (by simpa using hpending)]
        exact ih htail (by simp)
      · rw [run_code_blank hb hbreak]
        exact ih htail (by simpa [hb] using hpending)

theorem lineText_cons_blank {b : Char} (hb : isBlank b = true) (pending : List Char) :
    lineText (b :: pending).reverse = lineText pending.reverse := by
  apply lineText_congr
  rw [List.reverse_cons, trim_append_blank hb]

theorem run_code_close (cs : List Char) : code.run ('}' :: cs) = .close :: code.run cs := rfl

theorem textsOf_run_blanks_close {blanks : List Char} (hblanks : ∀ c ∈ blanks, isBlank c = true)
    (pending rest : List Char) :
    textsOf pending (code.run (blanks ++ '}' :: rest)) =
      textsOf pending (code.run ('}' :: rest)) := by
  rw [run_code_close, textsOf_close]
  induction blanks generalizing pending with
  | nil => rw [List.nil_append, run_code_close, textsOf_close]
  | cons b blanks ih =>
      have hb := hblanks b List.mem_cons_self
      have htail := ih fun c hc ↦ hblanks c (List.mem_cons_of_mem b hc)
      rw [List.cons_append]
      by_cases hbreak : b = '\n'
      · subst hbreak
        have hnone : lineText [].reverse = [] := lineText_blanks (by simp)
        rw [run_code_newline, textsOf_newline, htail, hnone, List.nil_append]
      · rw [run_code_blank hb hbreak, textsOf_plain, htail, lineText_cons_blank hb]

/-! ## Places where blanks may be added -/

/-- The text has been given blanks after the end of a statement or in front of a closing brace, or
a carriage return at the end of a line. -/
inductive Reflow : List Char → List Char → Prop
  | after {before blanks rest : List Char} {c : Char} (ends : c = ';' ∨ c = '{' ∨ c = '}')
      (outside : Outside before) (blank : ∀ b ∈ blanks, isBlank b = true) :
      Reflow (before ++ c :: rest) (before ++ c :: (blanks ++ rest))
  | ahead {before blanks rest : List Char} (outside : Outside before)
      (blank : ∀ b ∈ blanks, isBlank b = true) :
      Reflow (before ++ '}' :: rest) (before ++ (blanks ++ '}' :: rest))
  | carriageReturn {before rest : List Char} :
      Reflow (before ++ '\n' :: rest) (before ++ '\r' :: '\n' :: rest)

/-- Outside literals and comments a slash stands for itself unless it opens a comment. -/
theorem run_of_outside {σ : Reader} (h : σ.outside = true) {c : Char} (hslash : c ≠ '/')
    (hstar : c ≠ '*') (cs : List Char) :
    σ.run (c :: cs) = σ.held.map .plain ++ code.run (c :: cs) := by
  cases σ with
  | code => rfl
  | slash =>
      by_cases hbreak : c = '\n'
      · subst hbreak
        rfl
      · simp [run, emit, next, held, hbreak, hslash, hstar]
  | _ => exact absurd h Bool.false_ne_true

theorem textsOf_carriageReturn (pending : List Char) (ms : List Mark) :
    textsOf pending (.plain '\r' :: .newline :: ms) = textsOf pending (.newline :: ms) := by
  rw [textsOf_plain, textsOf_newline, textsOf_newline, lineText_cons_blank (by decide)]

theorem textsOf_run_carriageReturn (σ : Reader) (pending rest : List Char) :
    textsOf pending (σ.run ('\r' :: '\n' :: rest)) = textsOf pending (σ.run ('\n' :: rest)) := by
  cases σ with
  | code => exact textsOf_carriageReturn pending _
  | slash => exact textsOf_carriageReturn ('/' :: pending) _
  | literal quote =>
      have hrun : (literal quote).run ('\r' :: '\n' :: rest) =
          .plain '\r' :: .newline :: code.run rest := by
        by_cases hquote : quote = '\r'
        · subst hquote
          rfl
        · simp [run, emit, next, Reader.nextLine, held, Ne.symm hquote]
      rw [hrun]
      exact textsOf_carriageReturn pending _
  | escape quote => exact textsOf_carriageReturn pending _
  | lineComment => rfl
  | blockComment => rfl
  | star => rfl

theorem ne_slash_of_isBlank {b : Char} (hb : isBlank b = true) : b ≠ '/' ∧ b ≠ '*' := by
  constructor
  · rintro rfl
    exact absurd hb (by decide)
  · rintro rfl
    exact absurd hb (by decide)

theorem Reflow.textsOf_eq {cs ds : List Char} (h : Reflow cs ds) :
    textsOf [] (marks .code cs) = textsOf [] (marks .code ds) := by
  cases h with
  | @after before blanks rest c ends outside blank =>
      rw [marks_code_append, marks_code_append]
      apply textsOf_append_congr
      intro pending
      have hrest := textsOf_run_blanks blank (List.forall_mem_nil _) rest
      obtain ⟨hslash, hstar⟩ : c ≠ '/' ∧ c ≠ '*' := by
        rcases ends with rfl | rfl | rfl <;> decide
      rw [run_of_outside outside hslash hstar, run_of_outside outside hslash hstar]
      apply textsOf_append_congr
      intro pending
      rcases ends with rfl | rfl | rfl
      · change textsOf pending (.stop ';' :: code.run rest) =
          textsOf pending (.stop ';' :: code.run (blanks ++ rest))
        rw [textsOf_stop, textsOf_stop, hrest]
      · change textsOf pending (.stop '{' :: code.run rest) =
          textsOf pending (.stop '{' :: code.run (blanks ++ rest))
        rw [textsOf_stop, textsOf_stop, hrest]
      · rw [run_code_close, run_code_close, textsOf_close, textsOf_close, hrest]
  | @ahead before blanks rest outside blank =>
      rw [marks_code_append, marks_code_append]
      apply textsOf_append_congr
      intro pending
      cases blanks with
      | nil => rfl
      | cons b blanks =>
          obtain ⟨hslash, hstar⟩ := ne_slash_of_isBlank (blank b List.mem_cons_self)
          rw [List.cons_append, run_of_outside outside hslash hstar,
            run_of_outside outside (by decide) (by decide)]
          apply textsOf_append_congr
          intro pending
          exact (textsOf_run_blanks_close blank pending rest).symm
  | carriageReturn =>
      rw [marks_code_append, marks_code_append]
      apply textsOf_append_congr
      intro pending
      exact (textsOf_run_carriageReturn _ pending _).symm

open Relation in
/-- However often a text is reflowed, its lines say the same. -/
theorem map_text_normalize_of_reflow {text text' : String}
    (h : ReflTransGen Reflow text.toList text'.toList) :
    (normalize text).map (·.text) = (normalize text').map (·.text) := by
  rw [normalize, normalize, map_text_linesOf, map_text_linesOf]
  generalize text'.toList = ds at h
  induction h with
  | refl => rfl
  | tail _ hstep ih => exact ih.trans hstep.textsOf_eq

end ProtoHeader.Source

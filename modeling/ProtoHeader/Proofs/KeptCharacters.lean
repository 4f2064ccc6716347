import ProtoHeader.Proofs.LineByLine

/-!
# Characters that are kept

Cutting a text into lines leaves out its comments and some blanks, and nothing else: every other
character of the text is said by exactly one line, in the order of the text.  What the comments of a
text are is defined here piece by piece, literals and comments each taken as a whole.
-/

namespace ProtoHeader.Source

open Text

/-! ## Texts without comments -/

/-- The text after the first star and slash, nothing if there are none. -/
def afterClosing : List Char → List Char
  | '*' :: '/' :: cs => cs
  | _ :: cs => afterClosing cs
  | [] => []

/-- The part of a line that belongs to a literal which has just been opened: up to the first such
quote that no backslash protects. -/
def literalPart (quote : Char) : List Char → List Char
  | '\\' :: c :: cs => '\\' :: c :: literalPart quote cs
  | c :: cs => if c = quote then [c] else c :: literalPart quote cs
  | [] => []

theorem length_afterClosing_le (cs : List Char) : (afterClosing cs).length ≤ cs.length := by
  fun_induction afterClosing cs <;> simp_all <;> omega

/-- The text without its comments.  A line comment ends before the line break, a block comment with
the first star and slash, and neither starts in a literal. -/
def uncommented : List Char → List Char
  | '/' :: '/' :: cs => uncommented (cs.dropWhile (· ≠ '\n'))
  | '/' :: '*' :: cs => uncommented (afterClosing cs)
  | c :: cs =>
    if c = '"' ∨ c = '\'' then
      let body := literalPart c (cs.takeWhile (· ≠ '\n'))
      c :: (body ++ uncommented (cs.drop body.length))
    else c :: uncommented cs
  | [] => []
termination_by cs => cs.length
decreasing_by
  · have := (cs.dropWhile_sublist (· ≠ '\n')).length_le
    simp only [List.length_cons]
    omega
  · have := length_afterClosing_le cs
    simp only [List.length_cons]
    omega
  · simp only [List.length_cons, List.length_drop]
    omega
  · simp

/-! ## Marks of literals and comments -/

theorem marks_lineComment_eq (cs : List Char) :
    marks .lineComment cs = marks .code (cs.dropWhile (· ≠ '\n')) := by
  induction cs with
  | nil => rfl
  | cons c cs ih =>
      by_cases hbreak : c = '\n'
      · subst hbreak
        rw [List.dropWhile_cons_of_neg (by simp), marks_newline, marks_newline]
        rfl
      · rw [List.dropWhile_cons_of_pos (by simpa using hbreak), marks_lineComment_cons hbreak, ih]

/-- Of a block comment only line breaks are left. -/
theorem filter_marks_blockComment (cs : List Char) :
    ((marks .blockComment cs).map Mark.char).filter (!isBlank ·) =
      ((marks .code (afterClosing cs)).map Mark.char).filter (!isBlank ·) := by
  fun_induction afterClosing cs with
  | case1 cs =>
      rw [marks.eq_def]
      simp
  | case2 c cs hopen ih =>
      by_cases hbreak : c = '\n'
      · subst hbreak
        rw [marks_newline, List.map_cons, List.filter_cons_of_neg (by decide)]
        exact ih
      by_cases hstar : c = '*'
      · subst hstar
        cases cs with
        | nil => rfl
        | cons d ds => rw [marks_star_cons (fun h ↦ hopen ds rfl (h ▸ rfl)), ih]
      · rw [marks_blockComment_cons hbreak hstar, ih]
  | case3 => rfl

theorem marks_literal_stop {quote : Char} {rest : List Char}
    (hrest : ∀ c ∈ rest.head?, c = '\n') : marks (.literal quote) rest = marks .code rest := by
  cases rest with
  | nil => rfl
  | cons c rest =>
      obtain rfl := hrest c rfl
      rw [marks_newline, marks_newline]
      rfl

/-- A literal ends with its part of the line, whatever follows the line. -/
theorem marks_literalPart {quote : Char} (hquote : quote ≠ '\\') {line : List Char}
    (hline : '\n' ∉ line) {rest : List Char} (hrest : ∀ c ∈ rest.head?, c = '\n') :
    marks (.literal quote) (line ++ rest) = (literalPart quote line).map .plain ++
      marks .code (line.drop (literalPart quote line).length ++ rest) := by
  fun_induction literalPart quote line with
  | case1 c cs ih =>
      have hc : c ≠ '\n' := by grind
      have hcs : '\n' ∉ cs := by grind
      rw [List.cons_append, List.cons_append, marks_escape_cons hc, ih hcs]
      rfl
  | case2 cs hplain =>
      have hc : quote ≠ '\n' := by grind
      rw [List.cons_append, marks_literal_cons hc hquote, if_pos rfl]
      rfl
  | case3 c cs hplain hc ih =>
      rw [List.mem_cons, not_or] at hline
      by_cases hslash : c = '\\'
      · -- the backslash stands at the end of the line, where it protects nothing
        subst hslash
        obtain rfl : cs = [] := List.eq_nil_iff_forall_not_mem.2 fun d hd ↦ by
          obtain ⟨e, ds, rfl⟩ := List.exists_cons_of_ne_nil (List.ne_nil_of_mem hd)
          exact hplain e ds rfl rfl
        cases rest with
        | nil => rfl
        | cons d rest =>
            obtain rfl := hrest d rfl
            change marks (.literal quote) ('\\' :: '\n' :: rest) =
              .plain '\\' :: marks .code ('\n' :: rest)
            rw [marks_escape_newline, marks_newline]
            rfl
      · rw [List.cons_append, marks_literal_cons (Ne.symm hline.1) hslash, if_neg hc, ih hline.2]
        rfl
  | case4 => exact marks_literal_stop hrest

theorem length_literalPart_le (quote : Char) (line : List Char) :
    (literalPart quote line).length ≤ line.length := by
  fun_induction literalPart quote line <;> simp_all

theorem marks_literal_eq {quote : Char} (hquote : quote ≠ '\\') {cs body : List Char}
    (hbody : body = literalPart quote (cs.takeWhile (· ≠ '\n'))) :
    marks (.literal quote) cs = body.map .plain ++ marks .code (cs.drop body.length) := by
  have hline : '\n' ∉ cs.takeWhile (· ≠ '\n') := fun h ↦ by
    simpa using List.all_eq_true.1 List.all_takeWhile _ h
  have hrest : ∀ c ∈ (cs.dropWhile (· ≠ '\n')).head?, c = '\n' := fun c hc ↦ by
    have hhead := List.head?_dropWhile_not (· ≠ '\n') cs
    rw [Option.mem_def.1 hc] at hhead
    simpa using hhead
  have hmarks := marks_literalPart hquote hline hrest
  rw [← List.drop_append_of_le_length (length_literalPart_le quote _),
    List.takeWhile_append_dropWhile, ← hbody] at hmarks
  exact hmarks

/-! ## Characters that are said -/

/-- Marking a text leaves out its comments, line breaks in them apart. -/
theorem filter_marks_code (cs : List Char) :
    ((marks .code cs).map Mark.char).filter (!isBlank ·) =
      (uncommented cs).filter (!isBlank ·) := by
  fun_induction uncommented cs with
  | case1 cs ih =>
      have hopen : marks .code ('/' :: '/' :: cs) = marks .lineComment cs := by
        rw [marks.eq_def]
        simp
      rw [hopen, marks_lineComment_eq, ih]
  | case2 cs ih =>
      have hopen : marks .code ('/' :: '*' :: cs) = marks .blockComment cs := by
        rw [marks.eq_def]
        simp
      rw [hopen, filter_marks_blockComment, ih]
  | case3 c cs hslash hstar hquote body ih =>
      obtain ⟨hbreak, hmark, hescape⟩ : c ≠ '\n' ∧ c ≠ '/' ∧ c ≠ '\\' := by
        rcases hquote with rfl | rfl <;> decide
      have hmarks : (marks .code (c :: cs)).map Mark.char =
          c :: (body ++ (marks .code (cs.drop body.length)).map Mark.char) := by
        rw [marks_code_cons hbreak hmark, Mode.afterCode, if_pos hquote,
          marks_literal_eq hescape rfl]
        simp [body, Function.comp_def]
      rw [hmarks, List.filter_cons, List.filter_cons, List.filter_append, List.filter_append, ih]
  | case4 c cs hslash hstar hquote ih =>
      have hmarks : (marks .code (c :: cs)).map Mark.char =
          c :: (marks .code cs).map Mark.char := by
        by_cases hbreak : c = '\n'
        · subst hbreak
          rw [marks_newline]
          rfl
        by_cases hmark : c = '/'
        · subst hmark
          cases cs with
          | nil => rfl
          | cons d ds =>
              have hd : d ≠ '/' := fun h ↦ hslash ds rfl (h ▸ rfl)
              have hd' : d ≠ '*' := fun h ↦ hstar ds rfl (h ▸ rfl)
              rw [marks_slash_cons hd hd']
              rfl
        · rw [marks_code_cons hbreak hmark, Mode.afterCode, if_neg hquote, List.map_cons,
            Mark.char_ofCode]
      rw [hmarks, List.filter_cons, List.filter_cons, ih]
  | case5 => rfl

/-- The characters that the lines of a text say, in the order of the lines, are those of the text
without its comments, blanks apart. -/
theorem normalize_keeps_text (text : String) :
    ((normalize text).flatMap (·.text.toList)).filter (!isBlank ·) =
      (uncommented text.toList).filter (!isBlank ·) := by
  rw [← filter_marks_code]
  exact (dropsBlanks_linesOf 1 [] _).filter_eq

/-- Quotes in comments open no literal, and slashes in literals no comment. -/
example : uncommented "a/*'*/\"\\\"//\"b//c\n'/*\nd/*e".toList = "a\"\\\"//\"b\n'/*\nd".toList := by
  cbv

end ProtoHeader.Source

import ProtoHeader.Proofs.NormalizedText

/-!
# Reading without looking ahead

Whether a slash opens a comment shows only at the next character.  A reader that remembers such a
character, and says what it stands for one step later, needs no more than the characters read so
far.  It finds the same marks, so that a text can be read piece by piece.
-/

namespace ProtoHeader.Source

open Text

/-- What a reader of one character after the other knows of those before. -/
inductive Reader where
  | code
  /-- After a slash outside literals and comments. -/
  | slash
  | literal (quote : Char)
  /-- After a backslash in a literal. -/
  | escape (quote : Char)
  | lineComment
  | blockComment
  /-- After a star in a block comment. -/
  | star
  deriving Repr

namespace Reader

/-- A slash whose meaning is still open. -/
def held : Reader → List Char
  | slash => ['/']
  | _ => []

/-- The next character stands outside literals and comments. -/
def outside : Reader → Bool
  | code => true
  | slash => true
  | _ => false

def nextLine : Reader → Reader
  | blockComment => blockComment
  | star => blockComment
  | _ => code

def afterCode (c : Char) : Reader :=
  if c = '/' then slash else if c = '"' ∨ c = '\'' then literal c else code

def next (σ : Reader) (c : Char) : Reader :=
  if c = '\n' then σ.nextLine
  else match σ with
    | code => afterCode c
    | slash => if c = '/' then lineComment else if c = '*' then blockComment else afterCode c
    | literal quote => if c = '\\' then escape quote else if c = quote then code else literal quote
    | escape quote => literal quote
    | lineComment => lineComment
    | blockComment => if c = '*' then star else blockComment
    | star => if c = '/' then code else if c = '*' then star else blockComment

def codeMarks (c : Char) : List Mark :=
  if c = '/' then [] else [.ofCode c]

/-- The marks that are known once the character has been read. -/
def emit (σ : Reader) (c : Char) : List Mark :=
  if c = '\n' then σ.held.map .plain ++ [.newline]
  else match σ with
    | code => codeMarks c
    | slash => if c = '/' ∨ c = '*' then [] else .plain '/' :: codeMarks c
    | literal _ => [.plain c]
    | escape _ => [.plain c]
    | _ => []

theorem next_newline (σ : Reader) : σ.next '\n' = σ.nextLine := by
  cases σ <;> rfl

theorem emit_newline (σ : Reader) : σ.emit '\n' = σ.held.map .plain ++ [.newline] := by
  cases σ <;> rfl

def run (σ : Reader) : List Char → List Mark
  | [] => σ.held.map .plain
  | c :: cs => σ.emit c ++ run (σ.next c) cs

/-- The marks that are known once the characters have been read. -/
def emitted (σ : Reader) : List Char → List Mark
  | [] => []
  | c :: cs => σ.emit c ++ emitted (σ.next c) cs

theorem run_append (σ : Reader) (cs ds : List Char) :
    σ.run (cs ++ ds) = σ.emitted cs ++ (cs.foldl next σ).run ds := by
  induction cs generalizing σ with
  | nil => rfl
  | cons c cs ih => simp [run, emitted, ih]

theorem run_append_newline (σ : Reader) (cs ds : List Char) :
    σ.run (cs ++ '\n' :: ds) = σ.run cs ++ .newline :: (cs.foldl next σ).nextLine.run ds := by
  have hcs : σ.run cs = σ.emitted cs ++ (cs.foldl next σ).held.map .plain := by
    simpa [run] using run_append σ cs []
  rw [run_append, run, emit_newline, next_newline, hcs]
  simp

theorem emitted_append (σ : Reader) (cs ds : List Char) :
    σ.emitted (cs ++ ds) = σ.emitted cs ++ (cs.foldl next σ).emitted ds := by
  induction cs generalizing σ with
  | nil => rfl
  | cons c cs ih => simp [emitted, ih]

/-! ## Agreement with the marks of a text -/

/-- The surroundings in which the characters that the reader has not settled yet start. -/
def mode : Reader → Mode
  | code => .code
  | slash => .code
  | literal quote => .literal quote
  | escape quote => .literal quote
  | lineComment => .lineComment
  | blockComment => .blockComment
  | star => .blockComment

/-- The character that the reader remembers. -/
def recent : Reader → List Char
  | slash => ['/']
  | escape _ => ['\\']
  | star => ['*']
  | _ => []

/-- What has been said about the character that the reader remembers. -/
def said : Reader → List Mark
  | escape _ => [.plain '\\']
  | _ => []

end Reader

open Reader

theorem marks_slash_cons {c : Char} (hslash : c ≠ '/') (hstar : c ≠ '*') (cs : List Char) :
    marks .code ('/' :: c :: cs) = .plain '/' :: marks .code (c :: cs) := by
  rw [marks.eq_def]
  simp [hslash, hstar, Mark.ofCode, Mode.afterCode]

theorem marks_escape_cons {quote c : Char} (hbreak : c ≠ '\n') (cs : List Char) :
    marks (.literal quote) ('\\' :: c :: cs) =
      .plain '\\' :: .plain c :: marks (.literal quote) cs := by
  rw [marks.eq_def]
  simp [hbreak]

theorem marks_escape_newline (quote : Char) (cs : List Char) :
    marks (.literal quote) ('\\' :: '\n' :: cs) = .plain '\\' :: .newline :: marks .code cs := by
  rw [marks.eq_def]
  simp only [Char.reduceEq, if_false, ne_eq, not_true_eq_false, and_false]
  split <;> simp [marks_newline, Mode.nextLine]

theorem marks_lineComment_cons {c : Char} (hbreak : c ≠ '\n') (cs : List Char) :
    marks .lineComment (c :: cs) = marks .lineComment cs := by
  rw [marks.eq_def]
  simp [hbreak]

theorem marks_blockComment_cons {c : Char} (hbreak : c ≠ '\n') (hstar : c ≠ '*')
    (cs : List Char) : marks .blockComment (c :: cs) = marks .blockComment cs := by
  cases cs with
  | nil => simp [marks, hbreak]
  | cons d ds =>
      rw [marks.eq_def]
      simp [hbreak, hstar]

theorem marks_star_cons {c : Char} (hslash : c ≠ '/') (cs : List Char) :
    marks .blockComment ('*' :: c :: cs) = marks .blockComment (c :: cs) := by
  rw [marks.eq_def]
  simp [hslash]

theorem marks_code_of_tail {cs : List Char}
    (h : ∀ σ : Reader, marks σ.mode (σ.recent ++ cs) = σ.said ++ σ.run cs) (c : Char) :
    marks .code (c :: cs) = code.run (c :: cs) := by
  by_cases hbreak : c = '\n'
  · subst hbreak
    rw [marks_newline]
    exact congrArg (.newline :: ·) (h code)
  by_cases hslash : c = '/'
  · subst hslash
    exact h slash
  rw [marks_code_cons hbreak hslash]
  by_cases hquote : c = '"' ∨ c = '\''
  · have htail : marks (.literal c) cs = (literal c).run cs := h (literal c)
    simp [run, emit, next, Mode.afterCode, Reader.afterCode, codeMarks, hbreak, hslash, hquote,
      htail]
  · have htail : marks .code cs = code.run cs := h code
    simp [run, emit, next, Mode.afterCode, Reader.afterCode, codeMarks, hbreak, hslash, hquote,
      htail]

theorem marks_recent_newline {cs : List Char}
    (h : ∀ σ : Reader, marks σ.mode (σ.recent ++ cs) = σ.said ++ σ.run cs) (σ : Reader) :
    marks σ.mode (σ.recent ++ '\n' :: cs) = σ.said ++ σ.run ('\n' :: cs) := by
  have hcode : marks .code cs = code.run cs := h code
  have hblock : marks .blockComment cs = blockComment.run cs := h blockComment
  cases σ with
  | code => simp [mode, recent, said, run, emit, held, next, Reader.nextLine, marks_newline,
      Mode.nextLine, hcode]
  | slash => simp [mode, recent, said, run, emit, held, next, Reader.nextLine, marks_slash_cons,
      marks_newline, Mode.nextLine, hcode]
  | literal quote => simp [mode, recent, said, run, emit, held, next, Reader.nextLine,
      marks_newline, Mode.nextLine, hcode]
  | escape quote => simp [mode, recent, said, run, emit, held, next, Reader.nextLine,
      marks_escape_newline, hcode]
  | lineComment => simp [mode, recent, said, run, emit, held, next, Reader.nextLine,
      marks_newline, Mode.nextLine, hcode]
  | blockComment => simp [mode, recent, said, run, emit, held, next, Reader.nextLine,
      marks_newline, Mode.nextLine, hblock]
  | star => simp [mode, recent, said, run, emit, held, next, Reader.nextLine, marks_star_cons,
      marks_newline, Mode.nextLine, hblock]

theorem marks_recent (cs : List Char) (σ : Reader) :
    marks σ.mode (σ.recent ++ cs) = σ.said ++ σ.run cs := by
  induction cs generalizing σ with
  | nil => cases σ <;> simp [mode, recent, said, run, held, marks, Mark.ofCode]
  | cons c cs ih =>
      by_cases hbreak : c = '\n'
      · subst hbreak
        exact marks_recent_newline ih σ
      cases σ with
      | code => exact marks_code_of_tail ih c
      | slash =>
          by_cases hslash : c = '/'
          · subst hslash
            have htail : marks .lineComment cs = lineComment.run cs := ih lineComment
            rw [mode, recent, List.singleton_append, marks.eq_def]
            simpa [said, run, emit, next] using htail
          by_cases hstar : c = '*'
          · subst hstar
            have htail : marks .blockComment cs = blockComment.run cs := ih blockComment
            rw [mode, recent, List.singleton_append, marks.eq_def]
            simpa [said, run, emit, next] using htail
          · rw [mode, recent, List.singleton_append, marks_slash_cons hslash hstar,
              marks_code_of_tail ih c]
            simp [said, run, emit, next, hbreak, hslash, hstar]
      | literal quote =>
          by_cases hslash : c = '\\'
          · subst hslash
            exact ih (escape quote)
          change marks (.literal quote) (c :: cs) = (literal quote).run (c :: cs)
          rw [marks_literal_cons hbreak hslash]
          by_cases hquote : c = quote
          · have htail : marks .code cs = code.run cs := ih code
            subst hquote
            simp [run, emit, next, hbreak, hslash, htail]
          · have htail : marks (.literal quote) cs = (literal quote).run cs := ih (literal quote)
            simp [run, emit, next, hbreak, hslash, hquote, htail]
      | escape quote =>
          have htail : marks (.literal quote) cs = (literal quote).run cs := ih (literal quote)
          rw [mode, recent, List.singleton_append, marks_escape_cons hbreak, htail]
          simp [said, run, emit, next, hbreak]
      | lineComment =>
          have htail : marks .lineComment cs = lineComment.run cs := ih lineComment
          change marks .lineComment (c :: cs) = lineComment.run (c :: cs)
          rw [marks_lineComment_cons hbreak, htail]
          simp [run, emit, next, hbreak]
      | blockComment =>
          by_cases hstar : c = '*'
          · subst hstar
            exact ih star
          have htail : marks .blockComment cs = blockComment.run cs := ih blockComment
          change marks .blockComment (c :: cs) = blockComment.run (c :: cs)
          rw [marks_blockComment_cons hbreak hstar, htail]
          simp [run, emit, next, hbreak, hstar]
      | star =>
          by_cases hslash : c = '/'
          · subst hslash
            have htail : marks .code cs = code.run cs := ih code
            rw [mode, recent, List.singleton_append, marks.eq_def]
            simpa [said, run, emit, next] using htail
          rw [mode, recent, List.singleton_append, marks_star_cons hslash]
          by_cases hstar : c = '*'
          · subst hstar
            exact ih star
          · have htail : marks .blockComment cs = blockComment.run cs := ih blockComment
            rw [marks_blockComment_cons hbreak hstar, htail]
            simp [said, run, emit, next, hbreak, hslash, hstar]

theorem marks_code_eq_run (cs : List Char) : marks .code cs = code.run cs :=
  marks_recent cs code

/-- What a reader of the given characters from the start of a text knows. -/
def readerAfter (before : List Char) : Reader :=
  before.foldl next code

/-- A character that follows the given ones stands outside literals and comments. -/
def Outside (before : List Char) : Prop :=
  (readerAfter before).outside = true

instance (before : List Char) : Decidable (Outside before) :=
  inferInstanceAs (Decidable (_ = true))

@[simp] theorem readerAfter_append (first second : List Char) :
    readerAfter (first ++ second) = second.foldl next (readerAfter first) :=
  List.foldl_append

theorem marks_code_append (before rest : List Char) :
    marks .code (before ++ rest) = code.emitted before ++ (readerAfter before).run rest := by
  rw [marks_code_eq_run, run_append]
  rfl

end ProtoHeader.Source

import Mathlib.Data.List.Infix
import ProtoHeader.Proofs.ClosingLines
import ProtoHeader.Compile

/-!
# Scopes and their braces

Which declarations are open changes with the first word of a line alone: a keyword opens one where
it is looked for, and a closing brace closes the innermost one, whatever opened it.  So a
declaration ends at the brace that belongs to it exactly if the declarations that are entered in its
body match the closing braces there in the same way as the opening braces do.
-/

namespace ProtoHeader

open Source

/-! ## Blocks -/

/-- The line ends in an opening brace outside literals. -/
def Source.Line.opens (l : Line) : Bool :=
  (marks .code l.text.toList).getLast? == some (.stop '{')

def openers (lines : List Line) : ℕ :=
  lines.countP Line.opens

def closers (lines : List Line) : ℕ :=
  lines.countP (·.text == "\x7d")

/-- The closing brace belongs to the opening one of `decl`, by counting both. -/
structure IsBlock (decl : Line) (body : List Line) (closer : Line) : Prop where
  opens : decl.opens = true
  within : ∀ first ∈ body.inits, closers first ≤ openers first
  balanced : openers body = closers body
  closer_eq : closer.text = "\x7d"

/-! ## Open declarations -/

def Inner.kind : Inner → DeclKind
  | .enum _ => .enum
  | .oneof _ => .oneof

/-- The kinds of the open declarations, innermost first. -/
def Progress.scopes (p : Progress) : List DeclKind :=
  p.inner.toList.map Inner.kind ++ p.opened.map fun _ ↦ .message

/-- The kind of declaration that a line opens inside the given ones. -/
def entered? : List DeclKind → Line → Option DeclKind
  | [], l => (Progress.declKind? l).filter (· ≠ .oneof)
  | .message :: _, l => if l.closes then none else Progress.declKind? l
  | _ :: _, _ => none

def nextScopes (scopes : List DeclKind) (l : Line) : List DeclKind :=
  match entered? scopes l with
  | some kind => kind :: scopes
  | none => if l.closes then scopes.tail else scopes

/-- How many of the lines open a declaration, read one after another. -/
def entered (scopes : List DeclKind) : List Line → ℕ
  | [] => 0
  | l :: lines => (entered? scopes l).toList.length + entered (nextScopes scopes l) lines

namespace Progress

theorem scopes_openDecl {p q : Progress} {kind : DeclKind} {l : Line} (hinner : p.inner = none)
    (h : p.openDecl kind l = .ok q) : q.scopes = kind :: p.scopes := by
  unfold openDecl at h
  cases hname : Grammar.declaredName? kind.keyword l.text.toList with
  | none => simp [hname] at h
  | some name =>
      simp only [hname, Except.ok.injEq] at h
      cases kind <;> simp [← h, scopes, hinner, Inner.kind]

theorem scopes_addField (p : Progress) (f : Field) : (p.addField f).scopes = p.scopes := by
  cases hopened : p.opened <;> simp [addField, scopes, hopened]

theorem scopes_addEnum (p : Progress) (e : EnumDecl) : (p.addEnum e).scopes = p.scopes := by
  cases hopened : p.opened <;> simp [addEnum, scopes, hopened]

theorem scopes_closeMessage {p : Progress} (hinner : p.inner = none) :
    p.closeMessage.scopes = p.scopes.tail := by
  rcases hopened : p.opened with _ | ⟨m, _ | ⟨parent, rest⟩⟩ <;>
    simp [closeMessage, scopes, hinner, hopened]

theorem scopes_closeInner {p : Progress} {inner : Inner} (hinner : p.inner = some inner) :
    p.closeInner.scopes = p.scopes.tail := by
  cases inner with
  | enum decl =>
      simp only [closeInner, hinner, scopes_addEnum]
      simp [scopes, hinner]
  | oneof group => simp [closeInner, hinner, scopes]

theorem scopes_stepTop {p q : Progress} {l : Line} (hscopes : p.scopes = [])
    (hinner : p.inner = none) (h : p.stepTop l = .ok q) : q.scopes = nextScopes [] l := by
  unfold stepTop at h
  rcases hkind : declKind? l with _ | _ | _ | _
  · rw [hkind] at h
    cases h
    simp [nextScopes, entered?, hkind, hscopes]
  · rw [hkind] at h
    simp [scopes_openDecl hinner h, nextScopes, entered?, hkind, hscopes, Option.filter]
  · rw [hkind] at h
    simp [scopes_openDecl hinner h, nextScopes, entered?, hkind, hscopes, Option.filter]
  · rw [hkind] at h
    cases h
    simp [nextScopes, entered?, hkind, hscopes, Option.filter]

theorem scopes_stepMessage {p q : Progress} {l : Line} {outer : List DeclKind}
    (hscopes : p.scopes = .message :: outer) (hinner : p.inner = none)
    (h : p.stepMessage l = .ok q) : q.scopes = nextScopes (.message :: outer) l := by
  unfold stepMessage at h
  by_cases hcloses : l.closes = true
  · rw [if_pos hcloses] at h
    cases h
    simp [scopes_closeMessage hinner, hscopes, nextScopes, entered?, hcloses]
  · rw [if_neg hcloses] at h
    rcases hkind : declKind? l with _ | kind
    · have hq : q.scopes = p.scopes := by
        rw [hkind] at h
        obtain ⟨_ | f, -, h⟩ := exists_of_bind_ok h
        · cases h
          rfl
        · cases h
          exact scopes_addField p f
      simp [hq, hscopes, nextScopes, entered?, hcloses, hkind]
    · rw [hkind] at h
      have hq : q.scopes = kind :: p.scopes := scopes_openDecl hinner h
      simp [hq, hscopes, nextScopes, entered?, hcloses, hkind]

theorem scopes_stepEnum {p q : Progress} {l : Line} {decl : EnumDecl}
    (hinner : p.inner = some (.enum decl)) (h : p.stepEnum decl l = .ok q) :
    q.scopes = if l.closes then p.scopes.tail else p.scopes := by
  unfold stepEnum at h
  by_cases hcloses : l.closes = true
  · rw [if_pos hcloses] at h ⊢
    cases h
    exact scopes_closeInner hinner
  · rw [if_neg hcloses] at h ⊢
    obtain ⟨_ | v, -, h⟩ := exists_of_bind_ok h
    · cases h
      rfl
    · cases h
      simp [scopes, hinner, Inner.kind]

theorem scopes_stepOneof {p q : Progress} {l : Line} {group : String}
    (hinner : p.inner = some (.oneof group)) (h : p.stepOneof group l = .ok q) :
    q.scopes = if l.closes then p.scopes.tail else p.scopes := by
  unfold stepOneof at h
  by_cases hcloses : l.closes = true
  · rw [if_pos hcloses] at h ⊢
    cases h
    exact scopes_closeInner hinner
  · rw [if_neg hcloses] at h ⊢
    obtain ⟨_ | f, -, h⟩ := exists_of_bind_ok h
    · cases h
      rfl
    · cases h
      exact scopes_addField p _

/-- What a line does to the open declarations depends on its first word alone. -/
theorem scopes_step {p q : Progress} {l : Line} (h : p.step l = .ok q) :
    q.scopes = nextScopes p.scopes l := by
  rcases p with ⟨ms, es, opened, _ | decl | group⟩
  · cases opened with
    | nil => exact scopes_stepTop rfl rfl h
    | cons m rest => exact scopes_stepMessage rfl rfl h
  · exact scopes_stepEnum rfl h
  · exact scopes_stepOneof rfl h

/-- Reads lines until at most `d` declarations are open.  Gives what has been read by then, and the
lines that are left. -/
def readScope (d : ℕ) (p : Progress) : List Line → Except Fault (Progress × List Line)
  | [] => .ok (p, [])
  | l :: lines => do
    let q ← p.step l
    if q.scopes.length ≤ d then return (q, lines) else q.readScope d lines

theorem readScope_cons {d : ℕ} {p q : Progress} {l : Line} (h : p.step l = .ok q)
    (lines : List Line) : p.readScope d (l :: lines) =
      if q.scopes.length ≤ d then .ok (q, lines) else q.readScope d lines := by
  rw [readScope, h]
  rfl

/-- A line inside a message that is no brace, no declaration and no field is passed over. -/
theorem step_skipped {ms : List Message} {es : List EnumDecl} {m : Message} {rest : List Message}
    {l : Line} (hcloses : l.closes = false) (hkind : declKind? l = none)
    (hfield : Grammar.fieldParts? l.text.toList = none) :
    step ⟨ms, es, m :: rest, none⟩ l = .ok ⟨ms, es, m :: rest, none⟩ := by
  have hline : Field.ofLine? l = .ok none := by simp [Field.ofLine?, hfield]
  simp only [step, stepMessage, hcloses, hkind, hline]
  rfl

end Progress

/-! ## Where a scope ends -/

/-- The lines that are left when at most `d` declarations are open. -/
def linesAfter (d : ℕ) (scopes : List DeclKind) : List Line → List Line
  | [] => []
  | l :: lines =>
    if (nextScopes scopes l).length ≤ d then lines else linesAfter d (nextScopes scopes l) lines

theorem Progress.readScope_spec {d : ℕ} {p r : Progress} {lines left : List Line}
    (h : p.readScope d lines = .ok (r, left)) :
    p.steps lines = r.steps left ∧ left = linesAfter d p.scopes lines := by
  induction lines generalizing p with
  | nil =>
      cases h
      exact ⟨rfl, rfl⟩
  | cons l lines ih =>
      rcases hstep : p.step l with fault | q
      · rw [readScope, hstep] at h
        cases h
      have hscopes := Progress.scopes_step hstep
      rw [Progress.readScope_cons hstep] at h
      rw [Progress.steps_cons hstep, linesAfter, ← hscopes]
      split at h
      · rename_i hend
        cases h
        simp [hend]
      · rename_i hgo
        simpa [hgo] using ih h

theorem length_linesAfter_le (d : ℕ) (scopes : List DeclKind) (l : Line) (lines : List Line) :
    (linesAfter d scopes (l :: lines)).length ≤ lines.length := by
  induction lines generalizing scopes l with
  | nil => unfold linesAfter; split <;> simp [linesAfter]
  | cons l' lines ih =>
      unfold linesAfter
      split
      · exact Nat.le_refl _
      · have hrest := ih (nextScopes scopes l) l'
        simp only [List.length_cons]
        omega

/-- More than `d` declarations are open after every beginning of the lines. -/
def Above (d : ℕ) (scopes : List DeclKind) (lines : List Line) : Prop :=
  ∀ first ∈ lines.inits, d < (first.foldl nextScopes scopes).length

theorem above_nil {d : ℕ} {scopes : List DeclKind} : Above d scopes [] ↔ d < scopes.length := by
  simp [Above]

theorem above_cons {d : ℕ} {scopes : List DeclKind} {l : Line} {lines : List Line} :
    Above d scopes (l :: lines) ↔ d < scopes.length ∧ Above d (nextScopes scopes l) lines := by
  simp [Above]

theorem Above.lt_length {d : ℕ} {scopes : List DeclKind} {lines : List Line}
    (h : Above d scopes lines) : d < scopes.length :=
  h [] ((List.mem_inits _ _).2 List.nil_prefix)

theorem linesAfter_append_of_above {d : ℕ} {scopes : List DeclKind} {first : List Line}
    (h : Above d scopes first) (second : List Line) :
    linesAfter d scopes (first ++ second) =
      linesAfter d (first.foldl nextScopes scopes) second := by
  induction first generalizing scopes with
  | nil => rfl
  | cons l first ih =>
      have hnext := (above_cons.1 h).2
      have hgo : ¬(nextScopes scopes l).length ≤ d := Nat.not_le.2 hnext.lt_length
      rw [List.cons_append, linesAfter, if_neg hgo, ih hnext, List.foldl_cons]

theorem length_le_linesAfter_of_not_above {d : ℕ} {scopes : List DeclKind} {first : List Line}
    (hd : d < scopes.length) (h : ¬Above d scopes first) (second : List Line) :
    second.length ≤ (linesAfter d scopes (first ++ second)).length := by
  induction first generalizing scopes with
  | nil => exact absurd (above_nil.2 hd) h
  | cons l first ih =>
      rw [List.cons_append, linesAfter]
      split
      · simp
      · rename_i hgo
        exact ih (Nat.not_le.1 hgo) fun hnext ↦ h (above_cons.2 ⟨hd, hnext⟩)

/-! ## Counting -/

theorem entered?_of_closes {scopes : List DeclKind} (hne : scopes ≠ []) {l : Line}
    (h : l.closes = true) : entered? scopes l = none := by
  rcases scopes with _ | ⟨_ | _ | _, outer⟩ <;> simp_all [entered?]

theorem length_nextScopes {scopes : List DeclKind} (hne : scopes ≠ []) {l : Line}
    (hl : l.closes = true → l.text = "\x7d") :
    (nextScopes scopes l).length + closers [l] =
      scopes.length + (entered? scopes l).toList.length := by
  by_cases hcloses : l.closes = true
  · have hpos : 0 < scopes.length := List.length_pos_iff.2 hne
    simp [nextScopes, entered?_of_closes hne hcloses, hcloses, closers, hl hcloses]
    omega
  · have htext : l.text ≠ "\x7d" := by
      intro htext
      exact hcloses (by simp [Line.closes, htext])
    cases hkind : entered? scopes l <;> simp [nextScopes, hkind, hcloses, closers, htext]

theorem closers_cons (l : Line) (lines : List Line) :
    closers (l :: lines) = closers [l] + closers lines := by
  rw [← List.singleton_append, closers, List.countP_append]
  rfl

theorem length_foldl_nextScopes {d : ℕ} {scopes : List DeclKind} {lines : List Line}
    (hbraces : OnlyBraces lines) (h : Above d scopes lines) :
    (lines.foldl nextScopes scopes).length + closers lines =
      scopes.length + entered scopes lines := by
  induction lines generalizing scopes with
  | nil => rfl
  | cons l lines ih =>
      obtain ⟨hd, hnext⟩ := above_cons.1 h
      have hne : scopes ≠ [] := List.length_pos_iff.1 (Nat.zero_lt_of_lt hd)
      have hfirst := length_nextScopes hne (hbraces l List.mem_cons_self)
      have hrest := ih (fun k hk ↦ hbraces k (List.mem_cons_of_mem l hk)) hnext
      rw [List.foldl_cons, closers_cons, entered]
      omega

theorem above_iff_closers {d : ℕ} {scopes : List DeclKind} {lines : List Line}
    (hbraces : OnlyBraces lines) :
    Above d scopes lines ↔
      ∀ first ∈ lines.inits, d + closers first < scopes.length + entered scopes first := by
  induction lines generalizing scopes with
  | nil => simp [above_nil, closers, entered]
  | cons l lines ih =>
      have htail := fun k hk ↦ hbraces k (List.mem_cons_of_mem l hk)
      have hempty : d + closers [] < scopes.length + entered scopes [] ↔ d < scopes.length :=
        Iff.rfl
      rw [above_cons, ih htail, List.inits_cons, List.forall_mem_cons, List.forall_mem_map, hempty]
      apply and_congr_right
      intro hd
      have hne : scopes ≠ [] := List.length_pos_iff.1 (Nat.zero_lt_of_lt hd)
      have hfirst := length_nextScopes hne (hbraces l List.mem_cons_self)
      refine forall₂_congr fun first _ ↦ ?_
      rw [closers_cons, entered]
      omega

theorem linesAfter_closer {d : ℕ} {scopes : List DeclKind} (hd : d < scopes.length) {closer : Line}
    (hcloses : closer.closes = true) (rest : List Line) :
    linesAfter d scopes (closer :: rest) = rest ↔ scopes.length = d + 1 ∨ rest = [] := by
  have hne : scopes ≠ [] := List.length_pos_iff.1 (Nat.zero_lt_of_lt hd)
  have hnext : (nextScopes scopes closer).length = scopes.length - 1 := by
    simp [nextScopes, entered?_of_closes hne hcloses, hcloses]
  unfold linesAfter
  split
  · rename_i hend
    have hlast : scopes.length = d + 1 := by omega
    simp [hlast]
  · rename_i hgo
    have hmore : scopes.length ≠ d + 1 := by omega
    cases rest with
    | nil => simp [linesAfter]
    | cons l rest =>
        have hshort := length_linesAfter_le d (nextScopes scopes closer) l rest
        have hlong : linesAfter d (nextScopes scopes closer) (l :: rest) ≠ l :: rest := by
          intro heq
          rw [heq, List.length_cons] at hshort
          omega
        simp [hmore, hlong]

/-- A scope is left right after the brace that closes it by count, exactly if the declarations
entered in its body match the closing braces there. -/
theorem linesAfter_block {d : ℕ} {scopes : List DeclKind} (hlength : scopes.length = d + 1)
    {body : List Line} (hbraces : OnlyBraces body) {closer : Line}
    (hcloses : closer.closes = true) (rest : List Line) :
    linesAfter d scopes (body ++ closer :: rest) = rest ↔
      (∀ first ∈ body.inits, closers first ≤ entered scopes first) ∧
        (entered scopes body = closers body ∨ rest = []) := by
  have hcount : Above d scopes body ↔
      ∀ first ∈ body.inits, closers first ≤ entered scopes first := by
    rw [above_iff_closers hbraces]
    exact forall₂_congr fun first _ ↦ by omega
  rw [← hcount]
  by_cases habove : Above d scopes body
  · -- The scope is still open after its body, so the closing brace and what follows decide.
    have hdepth := length_foldl_nextScopes hbraces habove
    have hinside : d < (body.foldl nextScopes scopes).length :=
      habove body ((List.mem_inits _ _).2 (List.prefix_refl body))
    rw [linesAfter_append_of_above habove, linesAfter_closer hinside hcloses]
    have heq : (body.foldl nextScopes scopes).length = d + 1 ↔
        entered scopes body = closers body := by omega
    simp [habove, heq]
  · -- The scope is left too early: the closing brace itself has not been read.
    have hlong := length_le_linesAfter_of_not_above (by omega) habove (closer :: rest)
    have hne : linesAfter d scopes (body ++ closer :: rest) ≠ rest := by
      intro heq
      rw [heq, List.length_cons] at hlong
      omega
    simp [habove, hne]

/-- A declaration that is entered ends right after its own brace exactly if, in its body, no
beginning has more closing braces than entered declarations, and there are as many entered
declarations as opening braces (or nothing follows).  That is so whenever the lines that open a
declaration there are those that end in an opening brace. -/
theorem scope_ends_at_own_brace {text : String} {before body rest left : List Line}
    {decl closer : Line} {p q r : Progress} {kind : DeclKind}
    (hlines : Source.normalize text = before ++ decl :: (body ++ closer :: rest))
    (hblock : IsBlock decl body closer)
    (hentered : entered? p.scopes decl = some kind) (hdecl : p.step decl = .ok q)
    (hread : q.readScope p.scopes.length (body ++ closer :: rest) = .ok (r, left)) :
    q.steps (body ++ closer :: rest) = r.steps left ∧
      (left = rest ↔ (∀ first ∈ body.inits, closers first ≤ entered q.scopes first) ∧
        (entered q.scopes body = openers body ∨ rest = [])) ∧
      ((∀ first ∈ body.inits, entered q.scopes first = openers first) → left = rest) := by
  have hmem : ∀ l ∈ body ++ closer :: rest, l ∈ Source.normalize text := by
    intro l hl
    rw [hlines]
    exact List.mem_append_right _ (List.mem_cons_of_mem _ hl)
  have hbraces : OnlyBraces body :=
    fun l hl ↦ (closes_iff_of_mem_normalize (hmem l (List.mem_append_left _ hl))).1
  have hcloses : closer.closes = true :=
    (closes_iff_of_mem_normalize (hmem closer (by simp))).2 hblock.closer_eq
  have hlength : q.scopes.length = p.scopes.length + 1 := by
    rw [Progress.scopes_step hdecl]
    simp [nextScopes, hentered]
  obtain ⟨hsteps, hleft⟩ := Progress.readScope_spec hread
  have hiff : left = rest ↔ (∀ first ∈ body.inits, closers first ≤ entered q.scopes first) ∧
      (entered q.scopes body = openers body ∨ rest = []) := by
    rw [hleft, linesAfter_block hlength hbraces hcloses, hblock.balanced]
  refine ⟨hsteps, hiff, fun hsame ↦ hiff.2 ⟨fun first hfirst ↦ ?_, .inl ?_⟩⟩
  · rw [hsame first hfirst]
    exact hblock.within first hfirst
  · exact hsame body ((List.mem_inits _ _).2 (List.prefix_refl body))

/-- A message with an option in its body whose value has braces of its own. -/
def optionText : String :=
  "syntax = \"proto3\"; package p; message M \x7b option (o) = \x7b a: 1 \x7d; int32 x = 1; \x7d"

def optionHeading : Line :=
  ⟨"message M \x7b", 1⟩

def optionBody : List Line :=
  [⟨"option (o) = \x7b", 1⟩, ⟨"a: 1", 1⟩, ⟨"\x7d", 1⟩, ⟨";", 1⟩, ⟨"int32 x = 1;", 1⟩]

def optionCloser : Line :=
  ⟨"\x7d", 1⟩

theorem normalize_optionText :
    Source.normalize optionText = [⟨"syntax = \"proto3\";", 1⟩, ⟨"package p;", 1⟩] ++
      optionHeading :: (optionBody ++ [optionCloser]) := by
  decide +kernel

theorem isBlock_option : IsBlock optionHeading optionBody optionCloser where
  opens := by decide +kernel
  within := by decide +kernel
  balanced := by decide +kernel
  closer_eq := rfl

/-- The message `M` is open and nothing of its body has been read. -/
def optionStart : Progress :=
  ⟨[], [], [⟨"M", 1, [], [], []⟩], none⟩

theorem step_optionHeading : Progress.start.step optionHeading = .ok optionStart := by
  cbv

theorem readScope_option :
    optionStart.readScope 0 (optionBody ++ [optionCloser]) =
      .ok (⟨[⟨"M", 1, [], [], []⟩], [], [], none⟩, optionBody.drop 3 ++ [optionCloser]) := by
  have hoption : optionStart.step ⟨"option (o) = \x7b", 1⟩ = .ok optionStart :=
    Progress.step_skipped (by decide +kernel) (by decide +kernel) (by decide +kernel)
  have hvalue : optionStart.step ⟨"a: 1", 1⟩ = .ok optionStart :=
    Progress.step_skipped (by decide +kernel) (by decide +kernel) (by decide +kernel)
  rw [optionBody, List.cons_append, Progress.readScope_cons hoption, if_neg (by decide),
    List.cons_append, Progress.readScope_cons hvalue, if_neg (by decide)]
  rfl

/-- The message ends at the brace of the option, which is not its own. -/
theorem scope_ends_at_brace_of_option :
    IsBlock optionHeading optionBody optionCloser ∧
      optionStart.readScope 0 (optionBody ++ [optionCloser]) =
        .ok (⟨[⟨"M", 1, [], [], []⟩], [], [], none⟩, optionBody.drop 3 ++ [optionCloser]) ∧
      ¬∀ first ∈ optionBody.inits, closers first ≤ entered [.message] first := by
  refine ⟨isBlock_option, readScope_option, fun hwithin ↦ ?_⟩
  have hentered : entered? Progress.start.scopes optionHeading = some .message := by
    decide +kernel
  have hend := scope_ends_at_own_brace normalize_optionText isBlock_option hentered
    step_optionHeading readScope_option
  have hall : optionBody.drop 3 ++ [optionCloser] = [] := hend.2.1.2 ⟨hwithin, .inr rfl⟩
  exact absurd hall (by decide)

end ProtoHeader

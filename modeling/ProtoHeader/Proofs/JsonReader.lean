import ProtoHeader.Json.Basic
import ProtoHeader.Proofs.Scanning

/-!
# Reading JSON

A reader of JSON texts that takes one character at a time.  It keeps the part of a token that it has
read, and the lists and objects that are open around it.  Blanks between tokens are free, and a
string may use every escape of the format, with two surrogates for a character beyond the first
plane.  Texts with fractions or with `null` are refused, as no value stands for them.

Every value is read back from its text: from wherever a value may stand, the reader comes to the
same lists and objects around it, with the value read.
-/

namespace ProtoHeader.Json

open Text Grammar

/-! ## Tokens -/

inductive Token where
  | openList
  | closeList
  | openObject
  | closeObject
  | comma
  | colon
  | string (s : String)
  | number (n : Int)
  | bool (b : Bool)

/-- The token that is written with a single mark. -/
def mark? : Char → Option Token
  | '[' => some .openList
  | ']' => some .closeList
  | '{' => some .openObject
  | '}' => some .closeObject
  | ',' => some .comma
  | ':' => some .colon
  | _ => none

def isSpace (c : Char) : Bool :=
  c = ' ' || c = '\t' || c = '\n' || c = '\r'

/-- A character of which numbers and truth values are made: it ends no token before it. -/
def isBare (c : Char) : Bool :=
  !isSpace c && (mark? c).isNone && c != '"'

/-- The number that one or more digits denote, with no needless zero in front. -/
def decimal? : List Char → Option Nat
  | '0' :: _ :: _ => none
  | digits => natural? 10 digits

def integer? : List Char → Option Int
  | '-' :: digits => (decimal? digits).map fun n ↦ -(n : Int)
  | digits => (decimal? digits).map fun n ↦ (n : Int)

def word? (cs : List Char) : Option Token :=
  if cs = ['t', 'r', 'u', 'e'] then some (.bool true)
  else if cs = ['f', 'a', 'l', 's', 'e'] then some (.bool false)
  else (integer? cs).map .number

/-- The character of a code, surrogates excluded. -/
def scalar? (code : Nat) : Option Char :=
  if code.isValidChar then some (Char.ofNat code) else none

/-- The character of two surrogates. -/
def paired? (high low : Nat) : Option Char :=
  if 0xD800 ≤ high ∧ high < 0xDC00 ∧ 0xDC00 ≤ low ∧ low < 0xE000 then
    scalar? (0x10000 + (high - 0xD800) * 0x400 + (low - 0xDC00))
  else none

/-- The character that stands in a literal as a backslash and the given characters. -/
def escaped? : List Char → Option Char
  | ['"'] => some '"'
  | ['\\'] => some '\\'
  | ['/'] => some '/'
  | ['b'] => some '\x08'
  | ['f'] => some '\x0c'
  | ['n'] => some '\n'
  | ['r'] => some '\r'
  | ['t'] => some '\t'
  | ['u', a, b, c, d] => do scalar? (← natural? 16 [a, b, c, d])
  | ['u', a, b, c, d, '\\', 'u', e, f, g, h] => do
      paired? (← natural? 16 [a, b, c, d]) (← natural? 16 [e, f, g, h])
  | _ => none

/-! ## The reader -/

/-- A list or an object that is open, with what has been read of it. -/
inductive Frame where
  | list (elements : List Json)
  | object (members : List (String × Json)) (name : String)

/-- Where the reader stands among the tokens. -/
inductive State where
  /-- A value has to follow; the end of a list may, if nothing of it has been read. -/
  | value (around : List Frame)
  /-- The key of a member has to follow; the end of the object may, if nothing of it has been
  read. -/
  | key (members : List (String × Json)) (around : List Frame)
  | colon (members : List (String × Json)) (name : String) (around : List Frame)
  | done (v : Json) (around : List Frame)

def State.step : State → Token → Option State
  | .value around, .string s => some (.done (.string s) around)
  | .value around, .number n => some (.done (.number n) around)
  | .value around, .bool b => some (.done (.bool b) around)
  | .value around, .openList => some (.value (.list [] :: around))
  | .value (.list [] :: around), .closeList => some (.done (.array []) around)
  | .value around, .openObject => some (.key [] around)
  | .key [] around, .closeObject => some (.done (.object []) around)
  | .key members around, .string name => some (.colon members name around)
  | .colon members name around, .colon => some (.value (.object members name :: around))
  | .done v (.list vs :: around), .comma => some (.value (.list (vs ++ [v]) :: around))
  | .done v (.list vs :: around), .closeList => some (.done (.array (vs ++ [v])) around)
  | .done v (.object ms name :: around), .comma => some (.key (ms ++ [(name, v)]) around)
  | .done v (.object ms name :: around), .closeObject =>
    some (.done (.object (ms ++ [(name, v)])) around)
  | _, _ => none

/-- What has been read of a token that may go on. -/
inductive Lexeme where
  | nothing
  | word (cs : List Char)
  | literal (cs : List Char)
  /-- A literal, and what follows the backslash that stands behind it. -/
  | escape (cs escape : List Char)

structure Reader where
  lexeme : Lexeme
  state : State

namespace Reader

/-- The state once the token that is being read ends.  A literal does not end by itself. -/
def settle : Reader → Option State
  | ⟨.nothing, state⟩ => some state
  | ⟨.word cs, state⟩ => do state.step (← word? cs)
  | _ => none

def step : Reader → Char → Option Reader
  | ⟨.literal cs, state⟩, c =>
    if c = '"' then do return ⟨.nothing, ← state.step (.string (String.ofList cs))⟩
    else if c = '\\' then some ⟨.escape cs [], state⟩
    else if c.toNat < 0x20 then none
    else some ⟨.literal (cs ++ [c]), state⟩
  | ⟨.escape cs escape, state⟩, c =>
    match escaped? (escape ++ [c]) with
    | some d => some ⟨.literal (cs ++ [d]), state⟩
    -- an escape that is none of the format never ends, and with it the literal
    | none => some ⟨.escape cs (escape ++ [c]), state⟩
  | ⟨.nothing, state⟩, c =>
    if isBare c then some ⟨.word [c], state⟩ else settled state c
  | ⟨.word cs, state⟩, c =>
    if isBare c then some ⟨.word (cs ++ [c]), state⟩
    else do settled (← settle ⟨.word cs, state⟩) c
where
  /-- The first character behind a token, where it does not continue the token. -/
  settled (state : State) (c : Char) : Option Reader :=
    if c = '"' then some ⟨.literal [], state⟩
    else
      match mark? c with
      | some token => do return ⟨.nothing, ← state.step token⟩
      | none => some ⟨.nothing, state⟩

def run (r : Reader) (cs : List Char) : Option Reader :=
  cs.foldlM step r

end Reader

/-- The value of a text, which is one value between blanks. -/
def read? (text : String) : Option Json := do
  let r ← Reader.run ⟨.nothing, .value []⟩ text.toList
  match ← r.settle with
  | .done v [] => some v
  | _ => none

/-! ## Words -/

theorem isBare_of_isDigit {c : Char} (h : c.isDigit = true) : isBare c = true := by
  have hne : ∀ d : Char, d.isDigit = false → c ≠ d := by
    rintro d hd rfl
    rw [h] at hd
    contradiction
  have hmark : mark? c = none := by
    unfold mark?
    split <;> trivial
  simp [isBare, isSpace, hmark, hne]

/-- No number but zero is written with a zero in front. -/
theorem eq_nil_of_toDigits_eq_cons {n : ℕ} {cs : List Char} (h : Nat.toDigits 10 n = '0' :: cs) :
    cs = [] := by
  induction n using Nat.strongRecOn generalizing cs with
  | ind n ih =>
      rcases Nat.lt_or_ge n 10 with hn | hn
      · rw [Nat.toDigits_of_lt_base hn] at h
        exact (List.cons.inj h).2.symm
      · -- all digits but the last are those of `n / 10`, which is not zero
        rw [Nat.toDigits_of_base_le (by decide) hn] at h
        obtain ⟨c, ds, hds⟩ :=
          List.exists_cons_of_ne_nil (Nat.toDigits_ne_nil (n := n / 10) (b := 10))
        rw [hds, List.cons_append] at h
        obtain ⟨rfl, -⟩ := List.cons.inj h
        have hzero := natural?_toDigits (n / 10)
        rw [hds, ih (n / 10) (by omega) hds] at hzero
        have hvalue : 0 = n / 10 := Option.some.inj hzero
        omega

theorem decimal?_toDigits (n : ℕ) : decimal? (Nat.toDigits 10 n) = some n := by
  unfold decimal?
  split
  · next c cs h => exact absurd (eq_nil_of_toDigits_eq_cons h) (List.cons_ne_nil c cs)
  · exact natural?_toDigits n

theorem toList_repr_ofNat (n : ℕ) : (Int.ofNat n).repr.toList = Nat.toDigits 10 n := by
  simp [Int.repr, Nat.repr]

theorem toList_repr_negSucc (n : ℕ) :
    (Int.negSucc n).repr.toList = '-' :: Nat.toDigits 10 (n + 1) := by
  simp [Int.repr, Nat.repr]

theorem integer?_repr (n : ℤ) : integer? n.repr.toList = some n := by
  cases n with
  | ofNat n =>
      have hminus : '-' ∉ Nat.toDigits 10 n := notMem_toDigits (by decide)
      rw [toList_repr_ofNat]
      unfold integer?
      split
      · next digits h => simp [h] at hminus
      · rw [decimal?_toDigits]
        rfl
  | negSucc n =>
      rw [toList_repr_negSucc, integer?, decimal?_toDigits]
      rfl

theorem word?_repr (n : ℤ) : word? n.repr.toList = some (.number n) := by
  have hne : ∀ cs, integer? cs = none → n.repr.toList ≠ cs := by
    rintro _ hcs rfl
    rw [integer?_repr] at hcs
    contradiction
  rw [word?, if_neg (hne _ (by decide)), if_neg (hne _ (by decide)), integer?_repr]
  rfl

theorem isBare_of_mem_repr {n : ℤ} {c : Char} (h : c ∈ n.repr.toList) : isBare c = true := by
  cases n with
  | ofNat n =>
      rw [toList_repr_ofNat] at h
      exact isBare_of_isDigit (isDigit_of_mem_toDigits h)
  | negSucc n =>
      rw [toList_repr_negSucc] at h
      rcases List.mem_cons.1 h with rfl | h
      · decide
      · exact isBare_of_isDigit (isDigit_of_mem_toDigits h)

/-! ## Runs of the reader -/

namespace Reader

theorem run_append (r : Reader) (cs ds : List Char) :
    r.run (cs ++ ds) = (r.run cs).bind fun r ↦ r.run ds :=
  List.foldlM_append

theorem run_cons (r : Reader) (c : Char) (cs : List Char) :
    r.run (c :: cs) = (r.step c).bind fun r ↦ r.run cs :=
  List.foldlM_cons

theorem run_singleton (r : Reader) (c : Char) : r.run [c] = r.step c := by
  rw [run_cons]
  exact Option.bind_fun_some (r.step c)

theorem step_of_settle {r : Reader} {state : State} (h : r.settle = some state) {c : Char}
    (hc : isBare c = false) : r.step c = step.settled state c := by
  obtain ⟨lexeme, before⟩ := r
  cases lexeme with
  | nothing =>
      cases h
      simp [step, hc]
  | word cs => simp [step, hc, h]
  | literal cs => cases h
  | escape cs escape => cases h

/-- From one state to another, with every token read to its end. -/
def Passes (s : State) (cs : List Char) (t : State) : Prop :=
  run ⟨.nothing, s⟩ cs = some ⟨.nothing, t⟩

/-- From one state to another, which is reached when the last token ends. -/
def Reads (s : State) (cs : List Char) (t : State) : Prop :=
  ∃ r, run ⟨.nothing, s⟩ cs = some r ∧ r.settle = some t

variable {s t u : State} {cs ds : List Char}

theorem Passes.reads (h : Passes s cs t) : Reads s cs t :=
  ⟨_, h, rfl⟩

theorem Passes.refl (s : State) : Passes s [] s :=
  rfl

theorem Passes.append_reads (h : Passes s cs t) (h' : Reads t ds u) : Reads s (cs ++ ds) u := by
  obtain ⟨r, hrun, hsettle⟩ := h'
  refine ⟨r, ?_, hsettle⟩
  rw [run_append, h]
  exact hrun

theorem Reads.append_singleton (h : Reads s cs t) {c : Char} (hc : isBare c = false)
    {r : Reader} (hr : step.settled t c = some r) : run ⟨.nothing, s⟩ (cs ++ [c]) = some r := by
  obtain ⟨before, hrun, hsettle⟩ := h
  rw [run_append, hrun, Option.bind_some, run_singleton, step_of_settle hsettle hc, hr]

theorem Reads.append_mark (h : Reads s cs t) {c : Char} {token : Token}
    (hc : mark? c = some token) (hstep : t.step token = some u) : Passes s (cs ++ [c]) u := by
  apply h.append_singleton
  · simp [isBare, hc]
  · have hquote : c ≠ '"' := by
      rintro rfl
      cases hc
    simp [step.settled, hquote, hc, hstep]

theorem Reads.append_space (h : Reads s cs t) {c : Char} (hc : isSpace c = true) :
    Passes s (cs ++ [c]) t := by
  apply h.append_singleton
  · simp [isBare, hc]
  · have hspace : ((c = ' ' ∨ c = '\t') ∨ c = '\n') ∨ c = '\r' := by simpa [isSpace] using hc
    rcases hspace with ((rfl | rfl) | rfl) | rfl <;> rfl

theorem Passes.append_spaces (h : Passes s cs t) (hds : ∀ c ∈ ds, isSpace c = true) :
    Passes s (cs ++ ds) t := by
  induction ds generalizing cs with
  | nil => simpa using h
  | cons d ds ih =>
      have hd := h.reads.append_space (hds d List.mem_cons_self)
      have hrest := ih hd fun c hc ↦ hds c (List.mem_cons_of_mem d hc)
      simpa using hrest

/-! ### Words and literals -/

theorem run_word (state : State) (cs : List Char) (hds : ∀ c ∈ ds, isBare c = true) :
    run ⟨.word cs, state⟩ ds = some ⟨.word (cs ++ ds), state⟩ := by
  induction ds generalizing cs with
  | nil => simp [run]
  | cons d ds ih =>
      have hd : step ⟨.word cs, state⟩ d = some ⟨.word (cs ++ [d]), state⟩ := by
        simp [step, hds d List.mem_cons_self]
      have hrest := ih (cs ++ [d]) fun c hc ↦ hds c (List.mem_cons_of_mem d hc)
      rw [run_cons, hd, Option.bind_some, hrest]
      simp

theorem reads_word {token : Token} (hcs : word? cs = some token)
    (hbare : ∀ c ∈ cs, isBare c = true) (hstep : s.step token = some t) : Reads s cs t := by
  have hsettle : settle ⟨.word cs, s⟩ = some t := by
    simp [settle, hcs, hstep]
  cases cs with
  | nil => cases hcs
  | cons c cs =>
      refine ⟨⟨.word (c :: cs), s⟩, ?_, hsettle⟩
      have hfirst : step ⟨.nothing, s⟩ c = some ⟨.word [c], s⟩ := by
        simp [step, hbare c List.mem_cons_self]
      rw [run_cons, hfirst, Option.bind_some,
        run_word s [c] fun d hd ↦ hbare d (List.mem_cons_of_mem c hd)]
      rfl

theorem escaped?_code : ∀ n < 0x20,
    escaped? ['u', '0', '0', Nat.digitChar (n / 16), Nat.digitChar (n % 16)] =
      some (Char.ofNat n) := by
  decide

/-- A code is read to its last digit before it stands for a character. -/
theorem run_code (state : State) (cs : List Char) {a b c : Char}
    (h : escaped? ['u', '0', '0', a, b] = some c) :
    run ⟨.literal cs, state⟩ ['\\', 'u', '0', '0', a, b] = some ⟨.literal (cs ++ [c]), state⟩ := by
  have hopen : run ⟨.literal cs, state⟩ ['\\', 'u', '0', '0', a] =
      some ⟨.escape cs ['u', '0', '0', a], state⟩ := rfl
  have hlast : step ⟨.escape cs ['u', '0', '0', a], state⟩ b =
      some ⟨.literal (cs ++ [c]), state⟩ := by
    simp [step, h]
  change run ⟨.literal cs, state⟩ (['\\', 'u', '0', '0', a] ++ [b]) = _
  rw [run_append, hopen, Option.bind_some, run_singleton, hlast]

theorem run_quotedChar (state : State) (cs : List Char) (c : Char) :
    run ⟨.literal cs, state⟩ (quotedChar c) = some ⟨.literal (cs ++ [c]), state⟩ := by
  unfold quotedChar
  split
  case h_8 hquote hbackslash _ _ _ _ _ =>
      split
      · next hcode =>
          have hescaped := escaped?_code c.toNat hcode
          rw [Char.ofNat_toNat] at hescaped
          exact run_code state cs hescaped
      · next hcode =>
          rw [run_singleton, step, if_neg hquote, if_neg hbackslash, if_neg hcode]
  all_goals rfl

theorem run_quotedChars (state : State) (cs ds : List Char) :
    run ⟨.literal cs, state⟩ (ds.flatMap quotedChar) = some ⟨.literal (cs ++ ds), state⟩ := by
  induction ds generalizing cs with
  | nil => simp [run]
  | cons d ds ih =>
      rw [List.flatMap_cons, run_append, run_quotedChar, Option.bind_some, ih]
      simp

theorem passes_quote {text : String} (hstep : s.step (.string text) = some t) :
    Passes s (quote text).toList t := by
  have hopen : step ⟨.nothing, s⟩ '"' = some ⟨.literal [], s⟩ := rfl
  have hclose : step ⟨.literal text.toList, s⟩ '"' = some ⟨.nothing, t⟩ := by
    simp [step, hstep]
  rw [Passes, quote, String.toList_ofList, quotedChars, List.cons_append, run_cons, hopen,
    Option.bind_some, run_append, run_quotedChars, Option.bind_some, run_singleton]
  exact hclose

end Reader

/-! ## Values -/

theorem prettyElements_eq_map (depth : ℕ) (vs : List Json) :
    prettyElements depth vs = vs.map (pretty depth) := by
  induction vs with
  | nil => rfl
  | cons v vs ih => simp [prettyElements, ih]

theorem prettyMembers_eq_map (depth : ℕ) (ms : List (String × Json)) :
    prettyMembers depth ms = ms.map fun m ↦ quote m.1 ++ ": " ++ m.2.pretty depth := by
  induction ms with
  | nil => rfl
  | cons m ms ih => simp [prettyMembers, ih]

namespace Reader

variable {s t : State} {cs : List Char}

theorem Reads.append_newline (h : Reads s cs t) (depth : ℕ) :
    Passes s (cs ++ (newline depth).toList) t := by
  have hspaces : ∀ c ∈ List.replicate (2 * depth) ' ', isSpace c = true := by
    intro c hc
    rw [List.eq_of_mem_replicate hc]
    rfl
  rw [newline, String.toList_ofList, ← List.singleton_append, ← List.append_assoc]
  exact (h.append_space rfl).append_spaces hspaces

/-- How the reader goes through the items of a list or an object. -/
structure Series (α : Type) (around : List Frame) where
  opening : Char
  closing : Char
  opens : Token
  closes : Token
  /-- An item may follow, behind those given. -/
  before : List α → State
  /-- An item has been read, behind those given. -/
  after : List α → α → State
  whole : List α → Json
  mark_opening : mark? opening = some opens
  mark_closing : mark? closing = some closes
  step_opens : State.step (.value around) opens = some (before [])
  step_empty : State.step (before []) closes = some (.done (whole []) around)
  step_comma : ∀ done x, State.step (after done x) .comma = some (before (done ++ [x]))
  step_closes : ∀ done x,
    State.step (after done x) closes = some (.done (whole (done ++ [x])) around)

namespace Series

variable {α : Type} {around : List Frame}

def list (around : List Frame) : Series Json around where
  opening := '['
  closing := ']'
  opens := .openList
  closes := .closeList
  before done := .value (.list done :: around)
  after done v := .done v (.list done :: around)
  whole := .array
  mark_opening := rfl
  mark_closing := rfl
  step_opens := rfl
  step_empty := rfl
  step_comma _ _ := rfl
  step_closes _ _ := rfl

def object (around : List Frame) : Series (String × Json) around where
  opening := '{'
  closing := '}'
  opens := .openObject
  closes := .closeObject
  before done := .key done around
  after done m := .done m.2 (.object done m.1 :: around)
  whole := .object
  mark_opening := rfl
  mark_closing := rfl
  step_opens := rfl
  step_empty := rfl
  step_comma _ _ := rfl
  step_closes _ _ := rfl

variable (series : Series α around) {text : α → String}

/-- Behind the last of the items, each of which is separated from the next by a comma and a line
break. -/
theorem reads_intercalate (depth : ℕ) (done : List α) (x : α) (xs : List α)
    (h : ∀ y ∈ x :: xs, ∀ done, Reads (series.before done) (text y).toList (series.after done y)) :
    ∃ init last, init ++ [last] = done ++ x :: xs ∧
      Reads (series.before done) (("," ++ newline depth).intercalate ((x :: xs).map text)).toList
        (series.after init last) := by
  have hx := h x List.mem_cons_self done
  induction xs generalizing done x with
  | nil => exact ⟨done, x, rfl, by simpa using hx⟩
  | cons y xs ih =>
      have hcomma := hx.append_mark (c := ',') rfl (series.step_comma done x)
      have hbreak := hcomma.reads.append_newline depth
      have hrest := fun z hz ↦ h z (List.mem_cons_of_mem x hz)
      obtain ⟨init, last, hall, hreads⟩ :=
        ih (done ++ [x]) y hrest (hrest y List.mem_cons_self (done ++ [x]))
      refine ⟨init, last, by simpa using hall, ?_⟩
      simpa [String.intercalate_cons_cons] using hbreak.append_reads hreads

theorem passes_enclose (depth : ℕ) (xs : List α)
    (h : ∀ x ∈ xs, ∀ done, Reads (series.before done) (text x).toList (series.after done x)) :
    Passes (.value around)
      (enclose (.singleton series.opening) (.singleton series.closing) depth (xs.map text)).toList
      (.done (series.whole xs) around) := by
  have hopen : Passes (.value around) [series.opening] (series.before []) :=
    (Passes.refl _).reads.append_mark series.mark_opening series.step_opens
  cases xs with
  | nil =>
      have hclose := hopen.reads.append_mark series.mark_closing series.step_empty
      simpa [enclose] using hclose
  | cons x xs =>
      obtain ⟨init, last, hall, hitems⟩ := series.reads_intercalate (depth + 1) [] x xs h
      have hbreak := hopen.reads.append_newline (depth + 1)
      have hlast := (hbreak.append_reads hitems).append_newline depth
      have hclose := hlast.reads.append_mark series.mark_closing (series.step_closes init last)
      rw [hall] at hclose
      simpa [enclose] using hclose

end Series

/-! ### Pretty texts -/

theorem reads_number (around : List Frame) (n : ℤ) :
    Reads (.value around) n.repr.toList (.done (.number n) around) :=
  reads_word (word?_repr n) (fun _ ↦ isBare_of_mem_repr) rfl

theorem reads_bool (around : List Frame) (b : Bool) :
    Reads (.value around) (if b then "true" else "false").toList (.done (.bool b) around) := by
  cases b with
  | true =>
      have hword : word? "true".toList = some (.bool true) := rfl
      exact reads_word hword (forall_mem_of_all (by decide)) rfl
  | false =>
      have hword : word? "false".toList = some (.bool false) := rfl
      exact reads_word hword (forall_mem_of_all (by decide)) rfl

theorem reads_member {around : List Frame} {done : List (String × Json)} {key : String} {v : Json}
    {text : String}
    (h : Reads (.value (.object done key :: around)) text.toList
      (.done v (.object done key :: around))) :
    Reads (.key done around) (quote key ++ ": " ++ text).toList
      (.done v (.object done key :: around)) := by
  have hkey : Passes (.key done around) (quote key).toList (.colon done key around) :=
    passes_quote (by cases done <;> rfl)
  have hcolon := hkey.reads.append_mark (c := ':') rfl rfl
  have hspace := hcolon.reads.append_space (c := ' ') rfl
  simpa using hspace.append_reads h

mutual

theorem reads_pretty (v : Json) (depth : ℕ) (around : List Frame) :
    Reads (.value around) (v.pretty depth).toList (.done v around) :=
  match v with
  | .string _ => (passes_quote rfl).reads
  | .number n => reads_number around n
  | .bool b => reads_bool around b
  | .array vs => by
      rw [pretty, prettyElements_eq_map]
      exact ((Series.list around).passes_enclose depth vs fun v hv done ↦
        reads_elements vs v hv (depth + 1) (.list done :: around)).reads
  | .object ms => by
      rw [pretty, prettyMembers_eq_map]
      exact ((Series.object around).passes_enclose depth ms fun m hm done ↦
        reads_member (reads_members ms m hm (depth + 1) (.object done m.1 :: around))).reads

theorem reads_elements (vs : List Json) : ∀ v ∈ vs, ∀ depth around,
    Reads (.value around) (v.pretty depth).toList (.done v around) :=
  match vs with
  | [] => by simp
  | v :: vs => List.forall_mem_cons.2 ⟨reads_pretty v, reads_elements vs⟩

theorem reads_members (ms : List (String × Json)) : ∀ m ∈ ms, ∀ depth around,
    Reads (.value around) (m.2.pretty depth).toList (.done m.2 around) :=
  match ms with
  | [] => by simp
  | (_, v) :: ms => List.forall_mem_cons.2 ⟨reads_pretty v, reads_members ms⟩

end

end Reader

/-- A value is read back from its text on a line of its own. -/
theorem read?_pretty (v : Json) : read? (v.pretty 0 ++ "\n") = some v := by
  have hpasses := (Reader.reads_pretty v 0 []).append_space (c := '\n') rfl
  have htext : (v.pretty 0 ++ "\n").toList = (v.pretty 0).toList ++ ['\n'] := by simp
  rw [read?, htext, hpasses]
  rfl

-- Other texts of a value are read too, and a text that is no JSON is refused.
example : read? "[ 1,-20 ,\"\\u00e9\\ud83d\\ude00\" ]" =
    some (.array [.number 1, .number (-20), .string "é😀"]) := by
  rfl

example : read? "[1,]" = none := by rfl

end ProtoHeader.Json

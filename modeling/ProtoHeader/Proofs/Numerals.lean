import Mathlib.Data.List.Forall2
import Mathlib.Data.List.Induction
import Mathlib.Data.Nat.Digits.Defs
import ProtoHeader.Header.Render
import ProtoHeader.Proofs.JsonReader

/-!
# Numerals and the numbers that they denote

The number of an enumerator is read from its numeral without regard to its length, and only the
number itself has to fit 32 bits.  A machine reads the same numerals in words of 64 bits, and gives
up where a step would leave them.  It never does so on a numeral whose number fits, since digits
only ever make a number larger.
-/

namespace ProtoHeader

namespace Grammar

/-! ## Digits -/

/-- The character is the digit of the given value, a letter in either case. -/
def IsDigit (base : ℕ) (c : Char) (value : ℕ) : Prop :=
  value < base ∧ (c = Nat.digitChar value ∨ c = (Nat.digitChar value).toUpper)

/-- The text is made of digits of the base, one at least, and they denote the number.  The last
digit counts the ones. -/
structure Denotes (base : ℕ) (cs : List Char) (n : ℕ) : Prop where
  ne_nil : cs ≠ []
  digits : ∃ values, List.Forall₂ (IsDigit base) cs values ∧ Nat.ofDigits base values.reverse = n

theorem toNat_lt_of_hexDigit? {c : Char} {value : ℕ} (h : hexDigit? c = some value) :
    c.toNat < 128 := by
  have hbelow : ∀ d : Char, c ≤ d → c.toNat ≤ d.toNat := fun _ h ↦ h
  unfold hexDigit? at h
  split at h
  · next hc => exact Nat.lt_of_le_of_lt (hbelow '9' hc.2) (by decide)
  · split at h
    · next hc => exact Nat.lt_of_le_of_lt (hbelow 'f' hc.2) (by decide)
    · split at h
      · next hc => exact Nat.lt_of_le_of_lt (hbelow 'F' hc.2) (by decide)
      · contradiction

theorem hexDigit?_eq_some_iff {c : Char} {value : ℕ} :
    hexDigit? c = some value ↔ IsDigit 16 c value := by
  have hread : ∀ value < 16, hexDigit? (Nat.digitChar value) = some value ∧
      hexDigit? (Nat.digitChar value).toUpper = some value := by decide
  have hascii : ∀ code < 128, ∀ value ∈ hexDigit? (Char.ofNat code),
      value < 16 ∧ (Char.ofNat code = Nat.digitChar value ∨
        Char.ofNat code = (Nat.digitChar value).toUpper) := by decide +kernel
  constructor
  · intro h
    have hc := hascii c.toNat (toNat_lt_of_hexDigit? h) value
    rw [Char.ofNat_toNat] at hc
    exact hc h
  · rintro ⟨hvalue, rfl | rfl⟩
    · exact (hread value hvalue).1
    · exact (hread value hvalue).2

theorem digit?_eq_some_iff {base : ℕ} (hbase : base ≤ 16) {c : Char} {value : ℕ} :
    digit? base c = some value ↔ IsDigit base c value := by
  rw [digit?, Option.filter_eq_some_iff, hexDigit?_eq_some_iff, decide_eq_true_eq]
  constructor
  · rintro ⟨⟨-, hc⟩, hvalue⟩
    exact ⟨hvalue, hc⟩
  · rintro ⟨hvalue, hc⟩
    exact ⟨⟨Nat.lt_of_lt_of_le hvalue hbase, hc⟩, hvalue⟩

/-- Digits are read from the left, each one making the number so far count for the base. -/
theorem foldlM_digit?_eq_some_iff {base : ℕ} (hbase : base ≤ 16) {cs : List Char} {n : ℕ} :
    cs.foldlM (fun m c ↦ (digit? base c).map (m * base + ·)) 0 = some n ↔
      ∃ values, List.Forall₂ (IsDigit base) cs values ∧
        Nat.ofDigits base values.reverse = n := by
  induction cs using List.reverseRecOn generalizing n with
  | nil => simp
  | append_singleton cs c ih =>
      simp only [List.foldlM_append, List.foldlM_cons, List.foldlM_nil, Option.bind_eq_bind,
        Option.bind_eq_some_iff, Option.map_eq_some_iff, Option.pure_def, Option.some.injEq, ih,
        digit?_eq_some_iff hbase]
      constructor
      · rintro ⟨_, ⟨values, hvalues, rfl⟩, _, ⟨value, hvalue, rfl⟩, rfl⟩
        refine ⟨values ++ [value], List.rel_append hvalues (.cons hvalue .nil), ?_⟩
        rw [List.reverse_append, List.reverse_singleton, List.singleton_append, Nat.ofDigits_cons,
          Nat.mul_comm, Nat.add_comm]
      · rintro ⟨all, hall, rfl⟩
        have hlast := List.forall₂_reverse_iff.mpr hall
        rw [List.reverse_append, List.reverse_singleton, List.singleton_append] at hlast
        generalize all.reverse = digits at hlast ⊢
        cases hlast with
        | @cons _ value _ values hvalue hvalues =>
            refine ⟨_, ⟨values.reverse, ?_, rfl⟩, _, ⟨value, hvalue, rfl⟩, ?_⟩
            · rwa [← List.forall₂_reverse_iff, List.reverse_reverse]
            · rw [List.reverse_reverse, Nat.ofDigits_cons, Nat.mul_comm, Nat.add_comm]

theorem natural?_eq_some_iff {base : ℕ} (hbase : base ≤ 16) {cs : List Char} {n : ℕ} :
    natural? base cs = some n ↔ Denotes base cs n := by
  cases cs with
  | nil =>
      constructor
      · intro h
        contradiction
      · intro h
        exact absurd rfl h.ne_nil
  | cons c cs =>
      constructor
      · intro h
        exact ⟨List.cons_ne_nil c cs, (foldlM_digit?_eq_some_iff hbase).mp h⟩
      · intro h
        exact (foldlM_digit?_eq_some_iff hbase).mpr h.digits

/-! ## Signs and bases -/

/-- The text is a numeral without a sign: decimal digits, or hexadecimal ones after `0x` or `0X`. -/
inductive SpellsMagnitude : List Char → ℕ → Prop
  | decimal {cs : List Char} {n : ℕ} (digits : Denotes 10 cs n) : SpellsMagnitude cs n
  | hexadecimal {x : Char} {cs : List Char} {n : ℕ} (mark : x = 'x' ∨ x = 'X')
      (digits : Denotes 16 cs n) : SpellsMagnitude ('0' :: x :: cs) n

/-- The text is a numeral with at most one minus sign in front. -/
inductive Spells : List Char → ℤ → Prop
  | plain {cs : List Char} {n : ℕ} (magnitude : SpellsMagnitude cs n) : Spells cs n
  | negated {cs : List Char} {n : ℕ} (magnitude : SpellsMagnitude cs n) :
      Spells ('-' :: cs) (-n)

theorem Denotes.exists_isDigit {base : ℕ} {cs : List Char} {n : ℕ} (h : Denotes base cs n)
    {c : Char} (hc : c ∈ cs) : ∃ value, IsDigit base c value := by
  obtain ⟨values, hvalues, -⟩ := h.digits
  obtain ⟨i, hi, rfl⟩ := List.mem_iff_getElem.mp hc
  exact ⟨_, hvalues.get hi (hvalues.length_eq ▸ hi)⟩

theorem Denotes.notMem_of_digit? {cs : List Char} {n : ℕ} (h : Denotes 10 cs n) {c : Char}
    (hc : digit? 10 c = none) : c ∉ cs := by
  intro hmem
  obtain ⟨value, hvalue⟩ := h.exists_isDigit hmem
  rw [← digit?_eq_some_iff (by omega), hc] at hvalue
  cases hvalue

/-- The marks of a sign and of a base are no decimal digits. -/
theorem Denotes.notMem {cs : List Char} {n : ℕ} (h : Denotes 10 cs n) :
    '-' ∉ cs ∧ 'x' ∉ cs ∧ 'X' ∉ cs :=
  ⟨h.notMem_of_digit? rfl, h.notMem_of_digit? rfl, h.notMem_of_digit? rfl⟩

theorem magnitude?_eq_some_iff {cs : List Char} {n : ℕ} :
    magnitude? cs = some n ↔ SpellsMagnitude cs n := by
  constructor
  · intro h
    unfold magnitude? at h
    split at h
    · exact .hexadecimal (.inl rfl) ((natural?_eq_some_iff (by omega)).mp h)
    · exact .hexadecimal (.inr rfl) ((natural?_eq_some_iff (by omega)).mp h)
    · exact .decimal ((natural?_eq_some_iff (by omega)).mp h)
  · intro h
    cases h with
    | decimal digits =>
        obtain ⟨-, hx, hX⟩ := digits.notMem
        unfold magnitude?
        split
        · simp at hx
        · simp at hX
        · exact (natural?_eq_some_iff (by omega)).mpr digits
    | hexadecimal mark digits =>
        rcases mark with rfl | rfl
        · exact (natural?_eq_some_iff (by omega)).mpr digits
        · exact (natural?_eq_some_iff (by omega)).mpr digits

theorem SpellsMagnitude.head_ne_minus {cs : List Char} {n : ℕ} (h : SpellsMagnitude cs n)
    (rest : List Char) : cs ≠ '-' :: rest := by
  rintro rfl
  cases h with
  | decimal digits => exact digits.notMem.1 List.mem_cons_self

theorem signed?_minus (cs : List Char) :
    signed? ('-' :: cs) = (magnitude? cs).map fun n : ℕ ↦ -(n : ℤ) := by
  rw [signed?]
  cases magnitude? cs <;> rfl

theorem signed?_unsigned {cs : List Char} (h : ∀ rest, cs ≠ '-' :: rest) :
    signed? cs = (magnitude? cs).map fun n : ℕ ↦ (n : ℤ) := by
  rw [signed?.eq_2 cs h]
  cases magnitude? cs <;> rfl

theorem signed?_eq_some_iff {cs : List Char} {v : ℤ} : signed? cs = some v ↔ Spells cs v := by
  constructor
  · intro h
    by_cases hminus : ∃ rest, cs = '-' :: rest
    · obtain ⟨rest, rfl⟩ := hminus
      rw [signed?_minus, Option.map_eq_some_iff] at h
      obtain ⟨n, hn, rfl⟩ := h
      exact .negated (magnitude?_eq_some_iff.mp hn)
    · rw [signed?_unsigned (not_exists.mp hminus), Option.map_eq_some_iff] at h
      obtain ⟨n, hn, rfl⟩ := h
      exact .plain (magnitude?_eq_some_iff.mp hn)
  · intro h
    cases h with
    | plain magnitude =>
        rw [signed?_unsigned magnitude.head_ne_minus, magnitude?_eq_some_iff.mpr magnitude]
        rfl
    | negated magnitude =>
        rw [signed?_minus, magnitude?_eq_some_iff.mpr magnitude]
        rfl

theorem enumNumber?_eq_some_iff {cs : List Char} {v : ℤ} :
    enumNumber? cs = some v ↔ Spells cs v ∧ -2 ^ 31 ≤ v ∧ v < 2 ^ 31 := by
  rw [enumNumber?, Option.filter_eq_some_iff, signed?_eq_some_iff]
  apply and_congr_right
  intro _
  simp

/-! ## Words -/

/-- The word of 64 bits that holds the number, if there is one. -/
def word? (n : ℤ) : Option Int64 :=
  if -0x8000000000000000 ≤ n ∧ n < 0x8000000000000000 then some (.ofInt n) else none

/-- The word of 32 bits that holds the number, if there is one. -/
def halfWord? (n : ℤ) : Option Int32 :=
  if -0x80000000 ≤ n ∧ n < 0x80000000 then some (.ofInt n) else none

theorem word?_eq_some_iff {n : ℤ} {w : Int64} : word? n = some w ↔ w.toInt = n := by
  rw [word?, Option.ite_none_right_eq_some, Option.some.injEq]
  constructor
  · rintro ⟨⟨hlow, hhigh⟩, rfl⟩
    exact Int64.toInt_ofInt_of_le (by omega) (by omega)
  · rintro rfl
    have hlow := w.le_toInt
    have hhigh := w.toInt_lt
    exact ⟨by omega, Int64.ofInt_toInt w⟩

theorem word?_eq_none_iff {n : ℤ} :
    word? n = none ↔ n < -0x8000000000000000 ∨ 0x8000000000000000 ≤ n := by
  rw [word?, ite_eq_right_iff]
  simp only [reduceCtorEq, imp_false]
  omega

theorem map_toInt_halfWord? (n : ℤ) :
    (halfWord? n).map Int32.toInt =
      (some n).filter fun v ↦ -0x80000000 ≤ v && v < 0x80000000 := by
  rw [halfWord?, Option.filter_some]
  split
  · next h =>
      rw [Option.map_some, Int32.toInt_ofInt_of_le (by omega) (by omega)]
      simp [h]
  · next h => simp [h]

/-- One more digit in a word: the product and the sum both have to fit. -/
def pushDigit? (base : ℕ) (w : Int64) (c : Char) : Option Int64 := do
  let scaled ← word? (w.toInt * base)
  let value ← digit? base c
  word? (scaled.toInt + value)

def naturalWord? (base : ℕ) : List Char → Option Int64
  | [] => none
  | cs => cs.foldlM (pushDigit? base) 0

def magnitudeWord? : List Char → Option Int64
  | '0' :: 'x' :: digits => naturalWord? 16 digits
  | '0' :: 'X' :: digits => naturalWord? 16 digits
  | digits => naturalWord? 10 digits

def signedWord? : List Char → Option Int64
  | '-' :: cs => do word? (-(← magnitudeWord? cs).toInt)
  | cs => magnitudeWord? cs

/-- The number of an enumerator as a machine reads it. -/
def enumNumberWord? (cs : List Char) : Option Int32 := do
  halfWord? (← signedWord? cs).toInt

/-- Digits make a number larger, so that no digit brings a number back that has left the words. -/
theorem le_of_foldlM_digit? {base : ℕ} (hbase : 0 < base) {cs : List Char} {m n : ℕ}
    (h : cs.foldlM (fun m c ↦ (digit? base c).map (m * base + ·)) m = some n) : m ≤ n := by
  induction cs generalizing m with
  | nil =>
      obtain rfl := Option.some.inj h
      exact Nat.le_refl m
  | cons c cs ih =>
      rw [List.foldlM_cons] at h
      obtain ⟨next, hnext, h⟩ := Option.bind_eq_some_iff.mp h
      obtain ⟨value, -, rfl⟩ := Option.map_eq_some_iff.mp hnext
      calc
        m ≤ m * base := Nat.le_mul_of_pos_right m hbase
        _ ≤ m * base + value := Nat.le_add_right _ _
        _ ≤ n := ih h

theorem pushDigit?_eq (base : ℕ) {w : Int64} {m : ℕ} (hw : w.toInt = m) (c : Char) :
    pushDigit? base w c = (digit? base c).bind fun value ↦ word? (m * base + value : ℕ) := by
  have hscale : w.toInt * base = (m * base : ℕ) := by
    rw [hw, Nat.cast_mul]
  rw [pushDigit?, hscale]
  cases hscaled : word? (m * base : ℕ) with
  | none =>
      have hover : ∀ value : ℕ, word? (m * base + value : ℕ) = none := by
        intro value
        rw [word?_eq_none_iff] at hscaled ⊢
        omega
      simp only [Option.bind_eq_bind, Option.bind_none, hover, Option.bind_fun_none]
  | some scaled =>
      rw [word?_eq_some_iff] at hscaled
      simp [hscaled]

/-- Reading in words is reading exactly, with one look at the result. -/
theorem foldlM_pushDigit?_eq {base : ℕ} (hbase : 0 < base) (cs : List Char) {w : Int64} {m : ℕ}
    (hw : w.toInt = m) :
    cs.foldlM (pushDigit? base) w =
      (cs.foldlM (fun m c ↦ (digit? base c).map (m * base + ·)) m).bind fun n ↦ word? n := by
  induction cs generalizing w m with
  | nil =>
      rw [List.foldlM_nil, List.foldlM_nil, Option.pure_def, Option.pure_def, Option.bind_some]
      exact (word?_eq_some_iff.mpr hw).symm
  | cons c cs ih =>
      rw [List.foldlM_cons, List.foldlM_cons, pushDigit?_eq base hw]
      cases digit? base c with
      | none => simp
      | some value =>
          rw [Option.bind_eq_bind, Option.bind_some, Option.map_some, Option.bind_eq_bind,
            Option.bind_some]
          cases hnext : word? (m * base + value : ℕ) with
          | some next =>
              rw [Option.bind_some]
              exact ih (word?_eq_some_iff.mp hnext)
          | none =>
              -- what follows only adds to a number that is too large already
              apply Eq.symm
              rw [Option.bind_none, Option.bind_eq_none_iff]
              intro n hn
              have hle := le_of_foldlM_digit? hbase hn
              rw [word?_eq_none_iff] at hnext ⊢
              omega

theorem naturalWord?_eq {base : ℕ} (hbase : 0 < base) (cs : List Char) :
    naturalWord? base cs = (natural? base cs).bind fun n ↦ word? n := by
  cases cs with
  | nil => rfl
  | cons c cs => exact foldlM_pushDigit?_eq hbase (c :: cs) rfl

theorem magnitudeWord?_eq (cs : List Char) :
    magnitudeWord? cs = (magnitude? cs).bind fun n ↦ word? n := by
  unfold magnitudeWord?
  split
  · exact naturalWord?_eq (by omega) _
  · exact naturalWord?_eq (by omega) _
  · next hx hX =>
      rw [magnitude?.eq_3 cs hx hX]
      exact naturalWord?_eq (by omega) cs

theorem word?_neg_of_magnitudeWord? {cs : List Char} {w : Int64} (h : magnitudeWord? cs = some w) :
    word? (-w.toInt) = some (-w) := by
  rw [magnitudeWord?_eq] at h
  obtain ⟨n, -, hw⟩ := Option.bind_eq_some_iff.mp h
  rw [word?_eq_some_iff] at hw ⊢
  have hhigh := w.toInt_lt
  rw [Int64.toInt_neg]
  apply Int.bmod_eq_of_le <;> omega

theorem halfWord?_eq_none_iff {n : ℤ} :
    halfWord? n = none ↔ n < -0x80000000 ∨ 0x80000000 ≤ n := by
  rw [halfWord?, ite_eq_right_iff]
  simp only [reduceCtorEq, imp_false]
  omega

/-- What fits half a word fits a word. -/
theorem bind_word?_halfWord? (n : ℤ) :
    ((word? n).bind fun w ↦ halfWord? w.toInt) = halfWord? n := by
  cases hword : word? n with
  | some w => rw [Option.bind_some, word?_eq_some_iff.mp hword]
  | none =>
      apply Eq.symm
      rw [Option.bind_none, halfWord?_eq_none_iff]
      rw [word?_eq_none_iff] at hword
      omega

/-- The magnitude of a negative number that fits half a word fits a word. -/
theorem bind_word?_neg_halfWord? (n : ℕ) :
    ((word? n).bind fun w ↦ (word? (-w.toInt)).bind fun u ↦ halfWord? u.toInt) =
      halfWord? (-n) := by
  cases hword : word? n with
  | some w => rw [Option.bind_some, word?_eq_some_iff.mp hword, bind_word?_halfWord?]
  | none =>
      apply Eq.symm
      rw [Option.bind_none, halfWord?_eq_none_iff]
      rw [word?_eq_none_iff] at hword
      omega

theorem enumNumberWord?_eq (cs : List Char) :
    enumNumberWord? cs = (signed? cs).bind halfWord? := by
  unfold enumNumberWord? signedWord?
  split
  · next rest =>
      rw [signed?_minus, magnitudeWord?_eq, Option.bind_map, Option.bind_eq_bind,
        Option.bind_eq_bind, Option.bind_assoc, Option.bind_assoc]
      apply Option.bind_congr
      intro n _
      rw [Function.comp_apply, bind_word?_neg_halfWord?]
  · next hminus =>
      rw [signed?_unsigned hminus, magnitudeWord?_eq, Option.bind_map, Option.bind_eq_bind,
        Option.bind_assoc]
      apply Option.bind_congr
      intro n _
      rw [Function.comp_apply, bind_word?_halfWord?]

/-- The machine finds a number exactly where there is one of 32 bits. -/
theorem map_toInt_enumNumberWord? (cs : List Char) :
    (enumNumberWord? cs).map Int32.toInt = enumNumber? cs := by
  rw [enumNumberWord?_eq, enumNumber?]
  cases signed? cs with
  | none => rfl
  | some v => rw [Option.bind_some, map_toInt_halfWord?]

/-! ## Written numbers -/

theorem signed?_repr (v : ℤ) : signed? v.repr.toList = some v := by
  cases v with
  | ofNat n => rw [Json.toList_repr_ofNat, signed?_toDigits, Int.ofNat_eq_natCast]
  | negSucc n =>
      rw [Json.toList_repr_negSucc, signed?, magnitude?_toDigits]
      rfl

theorem enumNumber?_repr (v : Int32) : enumNumber? v.toInt.repr.toList = some v.toInt := by
  rw [enumNumber?_eq_some_iff, ← signed?_eq_some_iff]
  exact ⟨signed?_repr v.toInt, v.le_toInt, v.toInt_lt⟩

end Grammar

namespace Header

open Writer

/-- A constant is written on a line of its own, one level deep. -/
def constantLine (name number : String) : String :=
  defaultUnit ++ name ++ " = " ++ number ++ ","

theorem run_lines {α : Type} (unit : String) (depth : ℕ) (text : α → String) (xs : List α) :
    run unit depth (xs.map fun x ↦ .line (text x)) =
      (xs.map fun x ↦ indented unit depth (text x), depth) := by
  induction xs with
  | nil => rw [List.map_nil, run, List.map_nil]
  | cons x xs ih => simp only [List.map_cons, run, Op.run, ih, List.singleton_append]

theorem indented_zero (unit text : String) : indented unit 0 text = text := by
  unfold indented
  split
  · next h => exact (String.isEmpty_iff.mp h).symm
  · simp [String.join]

theorem indented_constant (name number : String) :
    indented defaultUnit 1 (name ++ " = " ++ number ++ ",") = constantLine name number := by
  have hne : (name ++ " = " ++ number ++ ",").isEmpty = false := by
    simp
  rw [indented, hne]
  simp [constantLine, String.join, String.append_assoc]

/-- An enumeration is written as its constants between two lines of its own. -/
theorem render_enumClass (name : String) (values : List EnumConstant) :
    (EnumClass.mk name values).render =
      finish (("enum class " ++ name ++ " \x7b") ::
        values.map (fun c ↦ constantLine c.name c.value.repr) ++ ["\x7d;"]) := by
  rw [EnumClass.render, EnumClass.program, write]
  simp only [run, Op.run, Nat.zero_add, run_lines, indented_constant, indented_zero, Nat.sub_self,
    List.append_nil]

end Header

namespace Grammar

open Header

/-- The number of an enumerator is the one that its numeral denotes, sign, base and leading zeros
included, wherever that one fits 32 bits, and there is none otherwise.  Reading in words of 64 bits
finds the same, and the magnitude that it reads can always be negated.  The numbers that are written
into a header are read back from there. -/
theorem enum_numbers_exact :
    (∀ cs v, enumNumber? cs = some v ↔ Spells cs v ∧ -2 ^ 31 ≤ v ∧ v < 2 ^ 31) ∧
    (∀ cs, (enumNumberWord? cs).map Int32.toInt = enumNumber? cs) ∧
    (∀ cs w, magnitudeWord? cs = some w → word? (-w.toInt) = some (-w)) ∧
    ∀ (name : String) (constants : List (String × Int32)), ∃ numbers : List String,
      List.Forall₂ (fun c number ↦ enumNumber? number.toList = some c.2.toInt) constants numbers ∧
      (EnumClass.mk name (constants.map fun c ↦ ⟨c.1, c.2.toInt⟩)).render =
        Writer.finish (("enum class " ++ name ++ " \x7b") ::
          List.zipWith (fun c number ↦ constantLine c.1 number) constants numbers ++
            ["\x7d;"]) := by
  refine ⟨fun cs v ↦ enumNumber?_eq_some_iff, map_toInt_enumNumberWord?,
    fun cs w ↦ word?_neg_of_magnitudeWord?, fun name constants ↦ ?_⟩
  refine ⟨constants.map fun c ↦ c.2.toInt.repr, ?_, ?_⟩
  · rw [List.forall₂_map_right_iff, List.forall₂_same]
    exact fun c _ ↦ enumNumber?_repr c.2
  · rw [render_enumClass, List.map_map, List.zipWith_map_right, List.zipWith_self]
    rfl

theorem enum_numbers_exact_lowest :
    magnitudeWord? "0x80000000".toList = some 0x80000000 ∧
      word? (-(0x80000000 : Int64).toInt) = some (-0x80000000) ∧
      enumNumber? "-0x80000000".toList = some (-0x80000000) := by
  obtain ⟨hspelled, -, hnegated, -⟩ := enum_numbers_exact
  have hmagnitude : magnitudeWord? "0x80000000".toList = some 0x80000000 := by decide +kernel
  have hdigits : natural? 16 "80000000".toList = some 0x80000000 := by decide +kernel
  refine ⟨hmagnitude, hnegated _ _ hmagnitude, (hspelled _ _).mpr ⟨?_, by omega, by omega⟩⟩
  exact .negated (.hexadecimal (.inl rfl) ((natural?_eq_some_iff (by omega)).mp hdigits))

end Grammar

end ProtoHeader

import Mathlib.Data.Nat.Notation
import ProtoHeader.Proofs.SourceTree

/-!
# Scanning written names and numbers

The scanners read as far as they can.  On the pieces of a source tree they stop exactly where the
piece ends: no blank and no mark of the grammar is a word character, and no digit is anything else.
-/

namespace ProtoHeader

open Text Grammar

/-! ## Runs of characters -/

theorem takeWhile_append_stop {α : Type} {p : α → Bool} {cs : List α}
    (h : ∀ c ∈ cs, p c = true) {stop : α} (hstop : p stop = false) (rest : List α) :
    (cs ++ stop :: rest).takeWhile p = cs := by
  rw [List.takeWhile_append_of_pos h, List.takeWhile_cons, hstop]
  exact List.append_nil cs

theorem dropWhile_append_stop {p : Char → Bool} {cs : List Char} (h : ∀ c ∈ cs, p c = true)
    {stop : Char} (hstop : p stop = false) (rest : List Char) :
    (cs ++ stop :: rest).dropWhile p = stop :: rest := by
  rw [List.dropWhile_append_of_pos h, List.dropWhile_cons, hstop]
  rfl

/-- Two runs that end at their stops are found again. -/
theorem append_stop_inj {α : Type} {p : α → Bool} {xs ys rest rest' : List α} {a b : α}
    (hxs : ∀ c ∈ xs, p c = true) (hys : ∀ c ∈ ys, p c = true) (ha : p a = false) (hb : p b = false)
    (h : xs ++ a :: rest = ys ++ b :: rest') : xs = ys ∧ rest = rest' := by
  have hrun := congrArg (List.takeWhile p) h
  rw [takeWhile_append_stop hxs ha, takeWhile_append_stop hys hb] at hrun
  subst hrun
  exact ⟨rfl, (List.cons.inj (List.append_cancel_left h)).2⟩

theorem mem_intercalate {α : Type} {sep : List α} {parts : List (List α)} {x : α}
    (h : x ∈ sep.intercalate parts) : x ∈ sep ∨ ∃ part ∈ parts, x ∈ part := by
  induction parts with
  | nil => simp at h
  | cons part parts ih =>
      cases parts with
      | nil => exact .inr ⟨part, by simp, by simpa using h⟩
      | cons next parts =>
          rw [List.intercalate_cons_cons] at h
          simp only [List.append_assoc, List.mem_append] at h
          rcases h with h | h | h
          · exact .inr ⟨part, by simp, h⟩
          · exact .inl h
          · rcases ih h with hsep | ⟨p, hp, hx⟩
            · exact .inl hsep
            · exact .inr ⟨p, List.mem_cons_of_mem _ hp, hx⟩

/-! ## Characters -/

namespace Text

theorem isBlank_of_word {c : Char} (h : inRanges asciiWordRanges c = true) :
    isBlank c = false := by
  have happart : ∀ r ∈ asciiWordRanges, ∀ b ∈ blankRanges, r.high < b.low ∨ b.high < r.low := by
    decide
  obtain ⟨r, hr, hlow, hhigh⟩ := inRanges_eq_true_iff.1 h
  apply Bool.eq_false_iff.2
  intro hblank
  obtain ⟨b, hb, hblow, hbhigh⟩ := inRanges_eq_true_iff.1 hblank
  have hrb := happart r hr b hb
  omega

theorem isWordChar_of_word {c : Char} (h : inRanges asciiWordRanges c = true) :
    isWordChar c = true := by
  obtain ⟨r, hr, -, hhigh⟩ := inRanges_eq_true_iff.1 h
  have hbelow : ∀ r ∈ asciiWordRanges, r.high < 128 := by decide
  have hascii : c.toNat < 128 := Nat.lt_of_le_of_lt hhigh (hbelow r hr)
  rw [isWordChar, if_pos hascii]
  exact h

theorem word_of_isNameStart {c : Char} (h : isNameStart c = true) :
    inRanges asciiWordRanges c = true := by
  obtain ⟨r, hr, hinside⟩ := inRanges_eq_true_iff.1 h
  exact inRanges_eq_true_iff.2 ⟨r, List.mem_cons_of_mem _ hr, hinside⟩

theorem word_of_isDigit {c : Char} (h : c.isDigit = true) :
    inRanges asciiWordRanges c = true := by
  refine inRanges_eq_true_iff.2 ⟨⟨0x30, 0x39⟩, List.mem_cons_self, ?_⟩
  simpa [Char.isDigit, UInt32.le_iff_toNat_le] using h

theorem isDecimalDigit_of_isDigit {c : Char} (h : c.isDigit = true) : isDecimalDigit c = true := by
  refine inRanges_eq_true_iff.2 ⟨⟨0x30, 0x39⟩, List.mem_cons_self, ?_⟩
  simpa [Char.isDigit, UInt32.le_iff_toNat_le] using h

theorem ne_of_word {c d : Char} (h : inRanges asciiWordRanges c = true)
    (hd : inRanges asciiWordRanges d = false) : c ≠ d := by
  rintro rfl
  rw [h] at hd
  contradiction

/-- What holds of word characters and of one mark holds of every character of a text made of
them. -/
theorem forall_mem_of_mark {P : Char → Prop} {mark : Char} {cs : List Char}
    (hcs : ∀ c ∈ cs, c = mark ∨ inRanges asciiWordRanges c = true) (hmark : P mark)
    (hword : ∀ c, inRanges asciiWordRanges c = true → P c) : ∀ c ∈ cs, P c := by
  intro c hc
  rcases hcs c hc with rfl | hc
  · exact hmark
  · exact hword c hc

/-- A fact on each character of a fixed text is settled by running through the text. -/
theorem forall_mem_of_all {P : Char → Prop} [DecidablePred P] {cs : List Char}
    (h : cs.all (fun c ↦ decide (P c)) = true) : ∀ c ∈ cs, P c := by
  intro c hc
  exact of_decide_eq_true (List.all_eq_true.1 h c hc)

theorem skipBlanks_cons_of_false {c : Char} {cs : List Char} (h : isBlank c = false) :
    skipBlanks (c :: cs) = c :: cs := by
  simp [skipBlanks, h]

theorem skipBlanks_append {cs : List Char} (hne : cs ≠ []) (h : ∀ c ∈ cs, isBlank c = false)
    (rest : List Char) : skipBlanks (cs ++ rest) = cs ++ rest := by
  obtain ⟨c, cs, rfl⟩ := List.exists_cons_of_ne_nil hne
  exact skipBlanks_cons_of_false (h c List.mem_cons_self)

theorem isBlank_space : isBlank ' ' = true := by decide

theorem isBlank_equals : isBlank '=' = false := by decide

theorem isBlank_semicolon : isBlank ';' = false := by decide

theorem isWordChar_space : isWordChar ' ' = false := by decide

theorem skipBlanks_space (cs : List Char) : skipBlanks (' ' :: cs) = skipBlanks cs := by
  simp [skipBlanks, isBlank_space]

theorem skipBlanks_equals (cs : List Char) : skipBlanks ('=' :: cs) = '=' :: cs :=
  skipBlanks_cons_of_false isBlank_equals

theorem skipBlanks_semicolon (cs : List Char) : skipBlanks (';' :: cs) = ';' :: cs :=
  skipBlanks_cons_of_false isBlank_semicolon

end Text

/-! ## Digits -/

theorem isDigit_of_mem_toDigits {n : ℕ} {c : Char} (h : c ∈ Nat.toDigits 10 n) :
    c.isDigit = true :=
  Nat.isDigit_of_mem_toDigits (by decide) (by decide) h

theorem notMem_toDigits {n : ℕ} {c : Char} (h : c.isDigit = false) : c ∉ Nat.toDigits 10 n := by
  intro hc
  rw [isDigit_of_mem_toDigits hc] at h
  contradiction

theorem word_of_mem_toDigits {n : ℕ} {c : Char} (h : c ∈ Nat.toDigits 10 n) :
    inRanges asciiWordRanges c = true :=
  word_of_isDigit (isDigit_of_mem_toDigits h)

theorem skipBlanks_toDigits (n : ℕ) (rest : List Char) :
    skipBlanks (Nat.toDigits 10 n ++ rest) = Nat.toDigits 10 n ++ rest :=
  skipBlanks_append Nat.toDigits_ne_nil (fun _ hc ↦ isBlank_of_word (word_of_mem_toDigits hc)) rest

namespace Grammar

theorem foldlM_toDigits (n : ℕ) :
    (Nat.toDigits 10 n).foldlM (fun m c ↦ (digit? 10 c).map (m * 10 + ·)) 0 = some n := by
  have hdigit : ∀ d < 10, digit? 10 (Nat.digitChar d) = some d := by decide
  induction n using Nat.strongRecOn with
  | ind n ih =>
      rcases Nat.lt_or_ge n 10 with hn | hn
      · simp [Nat.toDigits_of_lt_base hn, hdigit n hn]
      · have hlast : n % 10 < 10 := Nat.mod_lt n (by decide)
        have hinit := ih (n / 10) (by omega)
        have hsum : n / 10 * 10 + n % 10 = n := by omega
        rw [Nat.toDigits_of_base_le (by decide) hn, List.foldlM_append, hinit]
        simp [hdigit _ hlast, hsum]

theorem natural?_toDigits (n : ℕ) : natural? 10 (Nat.toDigits 10 n) = some n := by
  have hfold := foldlM_toDigits n
  obtain ⟨c, cs, hcs⟩ := List.exists_cons_of_ne_nil (Nat.toDigits_ne_nil (n := n) (b := 10))
  rw [hcs] at hfold ⊢
  exact hfold

theorem tag?_toDigits {n : ℕ} (hpos : 0 < n) (hlt : n < 0x100000000) :
    tag? (Nat.toDigits 10 n) = some n := by
  rw [tag?, natural?_toDigits, Option.filter_some, if_pos]
  simp only [hpos, hlt, decide_true, Bool.and_true]

/-- A decimal number is not taken for a hexadecimal one, since no letter is a digit. -/
theorem magnitude?_toDigits (n : ℕ) : magnitude? (Nat.toDigits 10 n) = some n := by
  have hx : 'x' ∉ Nat.toDigits 10 n := notMem_toDigits (by decide)
  have hX : 'X' ∉ Nat.toDigits 10 n := notMem_toDigits (by decide)
  rw [← natural?_toDigits n]
  unfold magnitude?
  split
  · rename_i heq
    simp [heq] at hx
  · rename_i heq
    simp [heq] at hX
  · rfl

theorem signed?_toDigits (n : ℕ) : signed? (Nat.toDigits 10 n) = some (n : ℤ) := by
  have hminus : '-' ∉ Nat.toDigits 10 n := notMem_toDigits (by decide)
  unfold signed?
  split
  · rename_i heq
    simp [heq] at hminus
  · simp [magnitude?_toDigits]

theorem signed?_digits (v : SourceTree.ValueItem) : signed? v.digits = some v.value := by
  unfold SourceTree.ValueItem.digits
  split
  · rename_i hneg
    have hvalue : -(v.value.natAbs : ℤ) = v.value := by omega
    rw [signed?, magnitude?_toDigits]
    exact congrArg some hvalue
  · rename_i hnonneg
    have hvalue : (v.value.natAbs : ℤ) = v.value := by omega
    rw [signed?_toDigits, hvalue]

theorem enumNumber?_digits (v : SourceTree.ValueItem) : enumNumber? v.digits = some v.value := by
  have hlow := v.le_value
  have hhigh := v.value_lt
  rw [enumNumber?, signed?_digits]
  simp only [Option.filter_some, Option.ite_none_right_eq_some, Bool.and_eq_true,
    decide_eq_true_eq, and_true]
  omega

end Grammar

/-! ## Names -/

namespace SourceTree

theorem Ident.word (n : Ident) {c : Char} (h : c ∈ n.chars) :
    inRanges asciiWordRanges c = true := by
  rcases List.mem_cons.1 h with rfl | h
  · exact word_of_isNameStart n.start_ok
  · exact n.rest_ok c h

theorem Ident.isName (n : Ident) : isName n.chars = true := by
  simp only [Ident.chars, Grammar.isName, n.start_ok, Bool.true_and, List.all_eq_true]
  exact fun c hc ↦ isWordChar_of_word (n.rest_ok c hc)

theorem Ident.name?_append (n : Ident) {c : Char} (hc : isWordChar c = false)
    (rest : List Char) : name? (n.chars ++ c :: rest) = some (n.chars, c :: rest) := by
  have hword : ∀ d ∈ n.rest, isWordChar d = true := fun d hd ↦ isWordChar_of_word (n.rest_ok d hd)
  simp [Ident.chars, name?, n.start_ok, takeWhile_append_stop hword hc,
    dropWhile_append_stop hword hc]

theorem Ident.skipBlanks_append (n : Ident) (rest : List Char) :
    skipBlanks (n.chars ++ rest) = n.chars ++ rest :=
  Text.skipBlanks_append (by simp [Ident.chars]) (fun _ hc ↦ isBlank_of_word (n.word hc)) rest

theorem mem_intercalate_dot {words : List (List Char)} {c : Char}
    (h : c ∈ ['.'].intercalate words) : c = '.' ∨ ∃ word ∈ words, c ∈ word :=
  (mem_intercalate h).imp_left List.mem_singleton.1

theorem Dotted.mem_chars (d : Dotted) :
    ∀ c ∈ d.chars, c = '.' ∨ inRanges asciiWordRanges c = true := by
  intro c hc
  rcases mem_intercalate_dot hc with hdot | ⟨word, hword, hc⟩
  · exact .inl hdot
  · obtain ⟨n, -, rfl⟩ := List.mem_map.1 hword
    exact .inr (n.word hc)

theorem Dotted.exists_chars_eq (d : Dotted) : ∃ cs, d.chars = d.first.start :: cs := by
  cases h : d.rest with
  | nil => exact ⟨d.first.rest, by simp [Dotted.chars, h, Ident.chars]⟩
  | cons n ns => simp [Dotted.chars, h, Ident.chars, List.intercalate_cons_cons]

theorem Reference.mem_chars (r : Reference) :
    ∀ c ∈ r.chars, c = '.' ∨ inRanges asciiWordRanges c = true := by
  unfold Reference.chars
  split
  · rw [List.forall_mem_cons]
    exact ⟨.inl rfl, r.name.mem_chars⟩
  · exact r.name.mem_chars

theorem Reference.chars_ne_nil (r : Reference) : r.chars ≠ [] := by
  obtain ⟨cs, hcs⟩ := r.name.exists_chars_eq
  unfold Reference.chars
  split
  · simp
  · simp [hcs]

theorem Ident.dot_notMem (n : Ident) : '.' ∉ n.chars :=
  fun h ↦ ne_of_word (n.word h) (by decide) rfl

theorem splitOn_dotted (d : Dotted) :
    d.chars.splitOn '.' = (d.first :: d.rest).map Ident.chars :=
  List.splitOn_intercalate '.' (by simp [Ident.dot_notMem]) (by simp)

theorem splitOn_dot_dotted (d : Dotted) :
    ('.' :: d.chars).splitOn '.' = [] :: (d.first :: d.rest).map Ident.chars := by
  have hchars : '.' :: d.chars = ['.'].intercalate ([] :: (d.first :: d.rest).map Ident.chars) := by
    simp [Dotted.chars, List.intercalate_cons_cons]
  rw [hchars]
  exact List.splitOn_intercalate '.' (by simp [Ident.dot_notMem]) (by simp)

theorem Reference.isReference (r : Reference) : isReference r.chars = true := by
  unfold Reference.chars
  split
  · rw [Grammar.isReference, splitOn_dot_dotted]
    simp [Ident.isName]
  · rw [Grammar.isReference, splitOn_dotted]
    change ((r.name.first :: r.name.rest).map Ident.chars).all isName = true
    simp [Ident.isName]

end SourceTree

end ProtoHeader

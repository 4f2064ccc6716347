import Mathlib.Data.Option.Basic
import ProtoHeader.Proofs.Scanning

/-!
# Reading written statements

Each statement of a source tree is read back by the grammar of its line.  The only choice is the
label of a field: a type that is spelled like a label is followed by a name and an equals sign,
which are not a type and a name.
-/

namespace ProtoHeader

open Text Grammar Source

/-! ## Words -/

theorem firstWord_append_space {word : List Char} (hne : word ≠ [])
    (hword : ∀ c ∈ word, isBlank c = false) (rest : List Char) :
    firstWord (word ++ ' ' :: rest) = word := by
  rw [firstWord, skipBlanks_append hne hword]
  exact takeWhile_append_stop (by simpa using hword) (by decide) rest

theorem append_blank_inj {xs ys as bs : List Char} {a b : Char}
    (hxs : ∀ c ∈ xs, isBlank c = false) (hys : ∀ c ∈ ys, isBlank c = false)
    (ha : isBlank a = true) (hb : isBlank b = true) (h : xs ++ a :: as = ys ++ b :: bs) :
    xs = ys ∧ as = bs :=
  append_stop_inj (p := (!isBlank ·)) (by simpa using hxs) (by simpa using hys) (by simpa using ha)
    (by simpa using hb) h

theorem closes_ofList (c : Char) (cs : List Char) (n : ℕ) :
    Line.closes ⟨String.ofList (c :: cs), n⟩ = (c == '}') := by
  simp [Line.closes]

namespace Grammar

theorem afterBlanks?_space (cs : List Char) : afterBlanks? (' ' :: cs) = some (skipBlanks cs) := by
  simp [afterBlanks?, isBlank_space]

theorem mem_of_afterBlanks? {cs rest : List Char} (h : afterBlanks? cs = some rest) {c : Char}
    (hc : c ∈ rest) : c ∈ cs := by
  cases cs with
  | nil => simp [afterBlanks?] at h
  | cons d cs =>
      simp only [afterBlanks?, Option.ite_none_right_eq_some, Option.some.injEq] at h
      rw [← h.2] at hc
      exact List.mem_cons_of_mem d ((List.dropWhile_sublist isBlank).mem hc)

theorem mem_of_afterModifier {cs : List Char} {c : Char} (hc : c ∈ afterModifier cs) : c ∈ cs := by
  have hword : ∀ word rest, (after? word cs).bind afterBlanks? = some rest → c ∈ rest → c ∈ cs := by
    intro word rest hrest hmem
    obtain ⟨tail, htail, hblanks⟩ := Option.bind_eq_some_iff.1 hrest
    rw [after?_eq_some_iff.1 htail]
    exact List.mem_append_right word (mem_of_afterBlanks? hblanks hmem)
  change c ∈ ((after? "public".toList cs).bind afterBlanks? <|>
    (after? "weak".toList cs).bind afterBlanks?).getD cs at hc
  cases hpublic : (after? "public".toList cs).bind afterBlanks? with
  | some rest =>
      rw [hpublic] at hc
      exact hword _ rest hpublic hc
  | none =>
      rw [hpublic] at hc
      cases hweak : (after? "weak".toList cs).bind afterBlanks? with
      | some rest =>
          rw [hweak] at hc
          exact hword _ rest hweak hc
      | none =>
          rw [hweak] at hc
          exact hc

theorem import?_eq_none {cs : List Char} (h : ∀ c ∈ cs, isQuote c = false) : import? cs = none := by
  unfold import?
  cases hafter : after? "import".toList cs with
  | none => rfl
  | some rest =>
      cases hblanks : afterBlanks? rest with
      | none => simp [hblanks]
      | some path =>
          have hpath : ∀ c ∈ afterModifier path, isQuote c = false := by
            intro c hc
            apply h
            rw [after?_eq_some_iff.1 hafter]
            exact List.mem_append_right _ (mem_of_afterBlanks? hblanks (mem_of_afterModifier hc))
          cases hmodifier : afterModifier path with
          | nil => simp [hblanks, hmodifier, afterQuote?]
          | cons c cs =>
              have hc := hpath c (by simp [hmodifier])
              simp [hblanks, hmodifier, afterQuote?, hc]

theorem Label.word_not_blank (label : Label) : ∀ c ∈ label.word.toList, isBlank c = false := by
  cases label <;> exact forall_mem_of_all (by decide)

end Grammar

theorem DeclKind.keyword_not_blank (kind : DeclKind) :
    ∀ c ∈ kind.keyword.toList, isBlank c = false := by
  cases kind <;> exact forall_mem_of_all (by decide)

namespace SourceTree

theorem Reference.not_blank (r : Reference) : ∀ c ∈ r.chars, isBlank c = false :=
  forall_mem_of_mark r.mem_chars (by decide) fun _ ↦ isBlank_of_word

theorem Reference.referenceChar (r : Reference) : ∀ c ∈ r.chars, isReferenceChar c = true :=
  forall_mem_of_mark r.mem_chars (by decide) fun c hc ↦ by
    simp [isReferenceChar, isWordChar_of_word hc]

/-- An identifier is a reference, which is how a name can be taken for a type. -/
def Ident.reference (n : Ident) : Reference :=
  ⟨false, n, []⟩

theorem Ident.chars_reference (n : Ident) : n.reference.chars = n.chars := by
  simp [Ident.reference, Reference.chars, Dotted.chars]

/-! ## Fields -/

theorem takeWhile_reference (r : Reference) (rest : List Char) :
    (r.chars ++ ' ' :: rest).takeWhile isReferenceChar = r.chars :=
  takeWhile_append_stop r.referenceChar (by decide) rest

theorem dropWhile_reference (r : Reference) (rest : List Char) :
    (r.chars ++ ' ' :: rest).dropWhile isReferenceChar = ' ' :: rest :=
  dropWhile_append_stop r.referenceChar (by decide) rest

theorem FieldItem.unlabelled?_body (f : FieldItem) (label : Option Label) :
    unlabelled? label f.body =
      some ⟨label, f.type.chars, f.name.chars, Nat.toDigits 10 f.tag⟩ := by
  have hdigits : ∀ c ∈ Nat.toDigits 10 f.tag, isDecimalDigit c = true :=
    fun c hc ↦ isDecimalDigit_of_isDigit (isDigit_of_mem_toDigits hc)
  have hstop : isDecimalDigit ';' = false := by decide
  have htake := takeWhile_append_stop hdigits hstop []
  have hdrop := dropWhile_append_stop hdigits hstop []
  have hnonempty : (Nat.toDigits 10 f.tag).isEmpty = false :=
    List.isEmpty_eq_false_iff.2 Nat.toDigits_ne_nil
  simp only [unlabelled?, FieldItem.body, takeWhile_reference, dropWhile_reference,
    f.type.isReference, afterBlanks?_space, Option.bind_eq_bind, Option.bind_some,
    f.name.skipBlanks_append, f.name.name?_append isWordChar_space, afterChar?, skipBlanks_space,
    skipBlanks_equals, if_true, skipBlanks_toDigits, htake, hdrop, skipBlanks_semicolon,
    hnonempty]
  rfl

/-- A name and an equals sign are not a type and a name. -/
theorem Ident.unlabelled?_equals (n : Ident) (label : Option Label) (rest : List Char) :
    unlabelled? label (n.chars ++ ' ' :: '=' :: rest) = none := by
  have hstart : isNameStart '=' = false := by decide
  rw [← n.chars_reference]
  simp only [unlabelled?, takeWhile_reference, dropWhile_reference, Reference.isReference,
    afterBlanks?_space, Option.bind_eq_bind, Option.bind_some, skipBlanks_equals, name?,
    hstart]
  rfl

theorem FieldItem.labelled?_body (f : FieldItem) (label : Label) :
    labelled? label f.body = none := by
  cases hafter : after? label.word.toList f.body with
  | none => simp [labelled?, hafter]
  | some rest =>
      have hbody := after?_eq_some_iff.1 hafter
      cases rest with
      | nil => simp [labelled?, hafter, afterBlanks?]
      | cons c cs =>
          by_cases hc : isBlank c = true
          · -- The label and the type end at the same blank, so the name comes next.
            obtain ⟨-, hcs⟩ := append_blank_inj f.type.not_blank label.word_not_blank
              (by decide) hc hbody
            simp [labelled?, hafter, afterBlanks?, hc, ← hcs, f.name.skipBlanks_append,
              f.name.unlabelled?_equals]
          · simp [labelled?, hafter, afterBlanks?, hc]

theorem FieldItem.labelled?_statement (f : FieldItem) {label : Label} (h : f.label = some label) :
    labelled? label f.statement =
      some ⟨label, f.type.chars, f.name.chars, Nat.toDigits 10 f.tag⟩ := by
  have hafter : after? label.word.toList f.statement = some (' ' :: f.body) := by
    simp [after?_eq_some_iff, FieldItem.statement, FieldItem.labelChars, h]
  have hskip : skipBlanks f.body = f.body :=
    skipBlanks_append f.type.chars_ne_nil f.type.not_blank _
  rw [labelled?, hafter]
  simp [afterBlanks?_space, hskip, f.unlabelled?_body]

theorem FieldItem.fieldParts?_statement (f : FieldItem) :
    fieldParts? f.statement =
      some ⟨f.label, f.type.chars, f.name.chars, Nat.toDigits 10 f.tag⟩ := by
  cases hlabel : f.label with
  | none =>
      have hstatement : f.statement = f.body := by
        simp [FieldItem.statement, FieldItem.labelChars, hlabel]
      simp [fieldParts?, hstatement, f.labelled?_body, f.unlabelled?_body]
  | some label =>
      cases label with
      | repeated => simp [fieldParts?, f.labelled?_statement hlabel]
      | optional =>
          have hother : labelled? .repeated f.statement = none := by
            simp [labelled?, FieldItem.statement, FieldItem.labelChars, hlabel, Label.word, after?]
          simp [fieldParts?, hother, f.labelled?_statement hlabel]

theorem FieldItem.ofLine? (f : FieldItem) (n : ℕ) :
    Field.ofLine? ⟨String.ofList f.statement, n⟩ = .ok (some (f.field n)) := by
  simp [Field.ofLine?, f.fieldParts?_statement, tag?_toDigits f.tag_pos f.tag_lt, FieldItem.field,
    Field.declare, Ident.string]

/-! ## Enumerators -/

theorem ValueItem.mem_digits (v : ValueItem) :
    ∀ c ∈ v.digits, c = '-' ∨ inRanges asciiWordRanges c = true := by
  unfold ValueItem.digits
  split
  · rw [List.forall_mem_cons]
    exact ⟨.inl rfl, fun c hc ↦ .inr (word_of_mem_toDigits hc)⟩
  · exact fun c hc ↦ .inr (word_of_mem_toDigits hc)

theorem ValueItem.digits_ne_nil (v : ValueItem) : v.digits ≠ [] := by
  unfold ValueItem.digits
  split <;> simp

theorem ValueItem.enumeratorParts?_statement (v : ValueItem) :
    enumeratorParts? v.statement = some ⟨v.name.chars, v.digits⟩ := by
  have hdigits : ∀ c ∈ v.digits, (!isBlank c && c != ';' && c != '[') = true :=
    forall_mem_of_mark v.mem_digits (by decide) fun c hc ↦ by
      simp [isBlank_of_word hc, ne_of_word hc (d := ';') (by decide),
        ne_of_word hc (d := '[') (by decide)]
  have hblank : ∀ c ∈ v.digits, isBlank c = false :=
    forall_mem_of_mark v.mem_digits (by decide) fun _ ↦ isBlank_of_word
  have hstop : (!isBlank ';' && ';' != ';' && ';' != '[') = false := by decide
  have htake := takeWhile_append_stop hdigits hstop []
  have hnonempty : v.digits.isEmpty = false := List.isEmpty_eq_false_iff.2 v.digits_ne_nil
  simp only [enumeratorParts?, ValueItem.statement, v.name.name?_append isWordChar_space,
    afterChar?, Option.bind_eq_bind, Option.bind_some, skipBlanks_space, skipBlanks_equals, if_true,
    skipBlanks_append v.digits_ne_nil hblank, htake, hnonempty]
  rfl

theorem ValueItem.ofLine? (v : ValueItem) (n : ℕ) :
    Enumerator.ofLine? ⟨String.ofList v.statement, n⟩ =
      .ok (some ⟨v.name.string, v.value, n⟩) := by
  simp [Enumerator.ofLine?, v.enumeratorParts?_statement, enumNumber?_digits, Ident.string]

/-! ## Declarations -/

theorem declaredName?_heading (kind : DeclKind) (name : Ident) :
    declaredName? kind.keyword (heading kind name) = some name.string := by
  have hafter : after? kind.keyword.toList (heading kind name) =
      some (' ' :: (name.chars ++ [' ', '{'])) := after?_eq_some_iff.2 rfl
  simp [declaredName?, hafter, afterBlanks?_space, name.skipBlanks_append,
    name.name?_append isWordChar_space, Ident.string]

theorem declKind?_of_firstWord {text word : List Char} {n : ℕ} (h : firstWord text = word) :
    Progress.declKind? ⟨String.ofList text, n⟩ =
      [DeclKind.message, .enum, .oneof].find? (·.keyword == String.ofList word) := by
  simp [Progress.declKind?, Line.keyword, h]

theorem declKind?_heading (kind : DeclKind) (name : Ident) (n : ℕ) :
    Progress.declKind? ⟨String.ofList (heading kind name), n⟩ = some kind := by
  have hne : kind.keyword.toList ≠ [] := by cases kind <;> decide
  have hword : firstWord (heading kind name) = kind.keyword.toList :=
    firstWord_append_space hne kind.keyword_not_blank _
  rw [declKind?_of_firstWord hword, String.ofList_toList]
  cases kind <;> decide

theorem declKind?_eq_none {text word : List Char} {n : ℕ} (h : firstWord text = word)
    (hword : ∀ kind : DeclKind, word ≠ kind.keyword.toList) :
    Progress.declKind? ⟨String.ofList text, n⟩ = none := by
  have hne : ∀ kind : DeclKind, kind.keyword ≠ String.ofList word := by
    intro kind heq
    apply hword kind
    rw [heq, String.toList_ofList]
  simp [declKind?_of_firstWord h, hne]

theorem BodyField.declKind?_statement (f : BodyField) (n : ℕ) :
    Progress.declKind? ⟨String.ofList f.statement, n⟩ = none := by
  cases hlabel : f.label with
  | none =>
      have hword : firstWord f.statement = f.type.chars := by
        simp only [FieldItem.statement, FieldItem.labelChars, hlabel]
        exact firstWord_append_space f.type.chars_ne_nil f.type.not_blank _
      exact declKind?_eq_none hword (f.no_keyword hlabel)
  | some label =>
      have hne : label.word.toList ≠ [] := by cases label <;> decide
      have hword : firstWord f.statement = label.word.toList := by
        simp only [FieldItem.statement, FieldItem.labelChars, hlabel, List.append_assoc]
        exact firstWord_append_space hne label.word_not_blank _
      refine declKind?_eq_none hword fun kind ↦ ?_
      cases label <;> cases kind <;> decide

/-! ## Statements of the file -/

theorem version?_syntaxStatement : version? syntaxStatement = some .proto3 := by
  decide

theorem package?_syntaxStatement : package? syntaxStatement = none := by
  decide

theorem package?_packageStatement (d : Dotted) :
    package? (packageStatement d) = some (String.ofList d.chars) := by
  have hafter : after? "package".toList (packageStatement d) = some (' ' :: (d.chars ++ [';'])) :=
    after?_eq_some_iff.2 rfl
  have hinside : ∀ c ∈ d.chars, (isWordChar c || c == '.') = true :=
    forall_mem_of_mark d.mem_chars (by decide) fun c hc ↦ by simp [isWordChar_of_word hc]
  have hstart := isBlank_of_word (word_of_isNameStart d.first.start_ok)
  obtain ⟨cs, hcs⟩ := d.exists_chars_eq
  have hskip : skipBlanks (d.chars ++ [';']) = d.chars ++ [';'] := by
    rw [hcs]
    exact skipBlanks_cons_of_false hstart
  have hhead : (d.chars ++ [';']).head? = some d.first.start := by simp [hcs]
  have hstop : (isWordChar ';' || ';' == '.') = false := by decide
  have htake := takeWhile_append_stop hinside hstop []
  have hdrop := dropWhile_append_stop hinside hstop []
  rw [package?, hafter]
  simp only [afterBlanks?_space, Option.bind_eq_bind, Option.bind_some, hskip, hhead,
    d.first.start_ok, htake, hdrop, afterChar?, skipBlanks_semicolon]
  rfl

theorem import?_syntaxStatement : import? syntaxStatement = none := by
  decide

theorem import?_packageStatement (d : Dotted) : import? (packageStatement d) = none := by
  have hafter : after? "import".toList (packageStatement d) = none := rfl
  rw [import?, hafter]
  rfl

end SourceTree

end ProtoHeader

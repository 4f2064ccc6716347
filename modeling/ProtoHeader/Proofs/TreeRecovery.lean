import ProtoHeader.Proofs.NormalizedText
import ProtoHeader.Proofs.WrittenStatements

/-!
# Recovering the source tree

Reading a written source tree gives exactly the schema that it declares.  The statements of an item
add its fields, messages and enumerations to the message that is open around it and leave everything
else as it was, which carries the induction over trees of any depth.
-/

namespace ProtoHeader

open Text Grammar Source

namespace SourceTree

/-! ## The statements of a tree -/

instance : DecidablePred IsOrdinary :=
  fun c ↦ inferInstanceAs (Decidable (c ∉ _))

theorem isOrdinary_space : IsOrdinary ' ' := by decide

theorem isOrdinary_equals : IsOrdinary '=' := by decide

theorem isOrdinary_of_word {c : Char} (h : inRanges asciiWordRanges c = true) : IsOrdinary c := by
  intro hc
  have hspecial : ∀ d ∈ ['\n', '/', '"', '\'', '}', ';', '{'],
      inRanges asciiWordRanges d = false := forall_mem_of_all (by decide)
  exact ne_of_word h (hspecial c hc) rfl

theorem isQuote_of_isOrdinary {c : Char} (h : IsOrdinary c) : isQuote c = false := by
  simp only [IsOrdinary, List.mem_cons, List.not_mem_nil, or_false, not_or] at h
  simp [isQuote, h]

/-- The statement starts with a word, has nothing special in it and ends in a semicolon or an
opening brace. -/
def IsEnded (s : List Char) : Prop :=
  ∃ c cs stop, s = c :: (cs ++ [stop]) ∧ isBlank c = false ∧
    (∀ d ∈ c :: cs, IsOrdinary d) ∧ (stop = ';' ∨ stop = '{')

theorem isEnded_of_word {word rest : List Char} {stop : Char} (hne : word ≠ [])
    (hblank : ∀ c ∈ word, isBlank c = false) (hword : ∀ c ∈ word, IsOrdinary c)
    (hrest : ∀ c ∈ rest, IsOrdinary c) (hstop : stop = ';' ∨ stop = '{') :
    IsEnded (word ++ (rest ++ [stop])) := by
  obtain ⟨c, cs, rfl⟩ := List.exists_cons_of_ne_nil hne
  refine ⟨c, cs ++ rest, stop, by simp, hblank c List.mem_cons_self, ?_, hstop⟩
  rw [← List.cons_append, List.forall_mem_append]
  exact ⟨hword, hrest⟩

theorem IsEnded.isStatement {s : List Char} (h : IsEnded s) : IsStatement s := by
  obtain ⟨c, cs, stop, rfl, hc, hcs, hstop⟩ := h
  exact isStatement_ordinary hc hcs hstop

theorem IsEnded.no_quote {s : List Char} (h : IsEnded s) : ∀ c ∈ s, isQuote c = false := by
  obtain ⟨c, cs, stop, rfl, -, hcs, hstop⟩ := h
  rw [← List.cons_append, List.forall_mem_append]
  refine ⟨fun d hd ↦ isQuote_of_isOrdinary (hcs d hd), ?_⟩
  rcases hstop with rfl | rfl <;> exact forall_mem_of_all (by decide)

theorem IsEnded.closes {s : List Char} (h : IsEnded s) (n : ℕ) :
    Line.closes ⟨String.ofList s, n⟩ = false := by
  obtain ⟨c, cs, stop, rfl, -, hcs, -⟩ := h
  have hc := hcs c List.mem_cons_self
  simp only [IsOrdinary, List.mem_cons, List.not_mem_nil, or_false, not_or] at hc
  rw [closes_ofList]
  simp [hc]

theorem Ident.ordinary (n : Ident) : ∀ c ∈ n.chars, IsOrdinary c :=
  fun _ hc ↦ isOrdinary_of_word (n.word hc)

theorem Ident.not_blank (n : Ident) : ∀ c ∈ n.chars, isBlank c = false :=
  fun _ hc ↦ isBlank_of_word (n.word hc)

theorem Dotted.ordinary (d : Dotted) : ∀ c ∈ d.chars, IsOrdinary c :=
  forall_mem_of_mark d.mem_chars (by decide) fun _ ↦ isOrdinary_of_word

theorem Reference.ordinary (r : Reference) : ∀ c ∈ r.chars, IsOrdinary c :=
  forall_mem_of_mark r.mem_chars (by decide) fun _ ↦ isOrdinary_of_word

theorem ValueItem.ordinary (v : ValueItem) : ∀ c ∈ v.digits, IsOrdinary c :=
  forall_mem_of_mark v.mem_digits (by decide) fun _ ↦ isOrdinary_of_word

/-- What follows the type of a field, up to the semicolon. -/
theorem FieldItem.ordinary_tail (f : FieldItem) :
    ∀ c ∈ ' ' :: (f.name.chars ++ ' ' :: '=' :: ' ' :: Nat.toDigits 10 f.tag), IsOrdinary c := by
  have hdigits : ∀ c ∈ Nat.toDigits 10 f.tag, IsOrdinary c :=
    fun c hc ↦ isOrdinary_of_word (word_of_mem_toDigits hc)
  simpa [or_imp, forall_and, isOrdinary_space, isOrdinary_equals] using ⟨f.name.ordinary, hdigits⟩

theorem FieldItem.isEnded (f : FieldItem) : IsEnded f.statement := by
  cases hlabel : f.label with
  | none =>
      have hended := isEnded_of_word f.type.chars_ne_nil f.type.not_blank f.type.ordinary
        f.ordinary_tail (.inl rfl)
      simpa [FieldItem.statement, FieldItem.labelChars, FieldItem.body, hlabel] using hended
  | some label =>
      have hne : label.word.toList ≠ [] := by cases label <;> decide
      have hword : ∀ c ∈ label.word.toList, IsOrdinary c := by
        cases label <;> exact forall_mem_of_all (by decide)
      have hrest : ∀ c ∈ ' ' :: (f.type.chars ++
          ' ' :: (f.name.chars ++ ' ' :: '=' :: ' ' :: Nat.toDigits 10 f.tag)), IsOrdinary c := by
        rw [List.forall_mem_cons, List.forall_mem_append]
        exact ⟨isOrdinary_space, f.type.ordinary, f.ordinary_tail⟩
      have hended := isEnded_of_word hne label.word_not_blank hword hrest (.inl rfl)
      simpa [FieldItem.statement, FieldItem.labelChars, FieldItem.body, hlabel] using hended

theorem ValueItem.isEnded (v : ValueItem) : IsEnded v.statement := by
  have hrest : ∀ c ∈ ' ' :: '=' :: ' ' :: v.digits, IsOrdinary c := by
    simpa [isOrdinary_space, isOrdinary_equals] using v.ordinary
  have hended := isEnded_of_word (by simp [Ident.chars]) v.name.not_blank v.name.ordinary hrest
    (.inl rfl)
  simpa [ValueItem.statement] using hended

theorem isEnded_heading (kind : DeclKind) (name : Ident) : IsEnded (heading kind name) := by
  have hne : kind.keyword.toList ≠ [] := by cases kind <;> decide
  have hword : ∀ c ∈ kind.keyword.toList, IsOrdinary c := by
    cases kind <;> exact forall_mem_of_all (by decide)
  have hrest : ∀ c ∈ ' ' :: (name.chars ++ [' ']), IsOrdinary c := by
    simpa [or_imp, forall_and, isOrdinary_space] using name.ordinary
  have hended := isEnded_of_word hne kind.keyword_not_blank hword hrest (.inr rfl)
  simpa [heading] using hended

theorem isEnded_packageStatement (d : Dotted) : IsEnded (packageStatement d) := by
  have hrest : ∀ c ∈ ' ' :: d.chars, IsOrdinary c := by
    simpa [isOrdinary_space] using d.ordinary
  have hword : ∀ c ∈ "package".toList, isBlank c = false ∧ IsOrdinary c :=
    forall_mem_of_all (by decide)
  exact isEnded_of_word (by decide) (fun c hc ↦ (hword c hc).1) (fun c hc ↦ (hword c hc).2) hrest
    (.inl rfl)

/-- What stands between the braces of a tree, and the braces. -/
def IsEndedOrClose (s : List Char) : Prop :=
  s = ['}'] ∨ IsEnded s

theorem IsEndedOrClose.isStatement {s : List Char} (h : IsEndedOrClose s) : IsStatement s := by
  rcases h with rfl | h
  · exact isStatement_close
  · exact h.isStatement

theorem IsEndedOrClose.import?_eq_none {s : List Char} (h : IsEndedOrClose s) :
    Grammar.import? s = none := by
  apply Grammar.import?_eq_none
  rcases h with rfl | h
  · exact forall_mem_of_all (by decide)
  · exact h.no_quote

theorem isEndedOrClose_block {kind : DeclKind} {name : Ident} {body : List (List Char)}
    (hbody : ∀ s ∈ body, IsEndedOrClose s) :
    ∀ s ∈ heading kind name :: (body ++ [['}']]), IsEndedOrClose s := by
  rw [List.forall_mem_cons, List.forall_mem_append, List.forall_mem_singleton]
  exact ⟨.inr (isEnded_heading kind name), hbody, .inl rfl⟩

mutual

theorem Item.isEndedOrClose : ∀ (item : Item), ∀ s ∈ item.statements, IsEndedOrClose s
  | .field f => by
      rw [Item.statements, List.forall_mem_singleton]
      exact .inr f.isEnded
  | .oneof group fields => by
      rw [Item.statements]
      apply isEndedOrClose_block
      rw [List.forall_mem_map]
      exact fun f _ ↦ .inr f.isEnded
  | .message name items => by
      rw [Item.statements]
      exact isEndedOrClose_block (isEndedOrClose_statementsOf items)
  | .enum e => by
      rw [Item.statements, EnumItem.statements]
      apply isEndedOrClose_block
      rw [List.forall_mem_map]
      exact fun v _ ↦ .inr v.isEnded

theorem isEndedOrClose_statementsOf : ∀ (items : List Item), ∀ s ∈ statementsOf items,
    IsEndedOrClose s
  | [] => by simp [statementsOf]
  | item :: items => by
      rw [statementsOf, List.forall_mem_append]
      exact ⟨item.isEndedOrClose, isEndedOrClose_statementsOf items⟩

end

theorem isStatement_syntaxStatement : IsStatement syntaxStatement := by
  have hparts : syntaxStatement =
      's' :: (("yntax = ".toList ++ '"' :: ("proto3".toList ++ ['"'])) ++ [';']) := by decide
  have hplain : ∀ c ∈ 's' :: "yntax = ".toList, IsOrdinary c :=
    forall_mem_of_all (by decide)
  have hquoted : ∀ c ∈ "proto3".toList, c ≠ '"' ∧ c ≠ '\n' ∧ c ≠ '\\' :=
    forall_mem_of_all (by decide)
  rw [hparts]
  exact isStatement_quoted (by decide) hplain hquoted

theorem File.isStatement (f : File) : ∀ s ∈ f.statements, IsStatement s := by
  rw [File.statements, List.forall_mem_cons, List.forall_mem_cons]
  exact ⟨isStatement_syntaxStatement, (isEnded_packageStatement f.package).isStatement,
    fun s hs ↦ (isEndedOrClose_statementsOf _ s hs).isStatement⟩

/-! ## Reading the lines of a block -/

theorem numbered_cons (line : ℕ → ℕ) (k : ℕ) (s : List Char) (statements : List (List Char)) :
    numbered line k (s :: statements) =
      ⟨String.ofList s, line k⟩ :: numbered line (k + 1) statements := rfl

theorem numbered_append (line : ℕ → ℕ) (k : ℕ) (xs ys : List (List Char)) :
    numbered line k (xs ++ ys) = numbered line k xs ++ numbered line (k + xs.length) ys := by
  simp [numbered, List.zipIdx_append]

end SourceTree

/-- A declaration of the given kind and name is open. -/
def Progress.enter (p : Progress) (kind : DeclKind) (name : String) (n : ℕ) : Progress :=
  match kind with
  | .message => { p with opened := ⟨name, n, [], [], []⟩ :: p.opened }
  | .enum => { p with inner := some (.enum ⟨name, n, []⟩) }
  | .oneof => { p with inner := some (.oneof name) }

/-- The message with further fields, nested messages and enumerations after its own. -/
def Message.extend (m : Message) (fields : List Field) (messages : List Message)
    (enums : List EnumDecl) : Message :=
  ⟨m.name, m.line, m.fields ++ fields, m.messages ++ messages, m.enums ++ enums⟩

theorem Message.extend_nil (m : Message) : m.extend [] [] [] = m := by
  cases m
  simp [Message.extend]

theorem Message.extend_extend (m : Message) (fs gs : List Field) (ms ns : List Message)
    (es ds : List EnumDecl) :
    (m.extend fs ms es).extend gs ns ds = m.extend (fs ++ gs) (ms ++ ns) (es ++ ds) := by
  simp [Message.extend]

namespace SourceTree

variable {line : ℕ → ℕ} {ms : List Message} {es : List EnumDecl} {rest : List Message}
  {m : Message}

theorem BodyField.step (f : BodyField) (n : ℕ) :
    Progress.step ⟨ms, es, m :: rest, none⟩ ⟨String.ofList f.statement, n⟩ =
      .ok ⟨ms, es, m.addField (f.field n) :: rest, none⟩ := by
  simp only [Progress.step, Progress.stepMessage, f.isEnded.closes, f.declKind?_statement,
    f.ofLine?]
  rfl

theorem FieldItem.step (f : FieldItem) (group : String) (n : ℕ) :
    Progress.step ⟨ms, es, m :: rest, some (.oneof group)⟩ ⟨String.ofList f.statement, n⟩ =
      .ok ⟨ms, es, m.addField { f.field n with oneof := some group } :: rest,
        some (.oneof group)⟩ := by
  simp only [Progress.step, Progress.stepOneof, f.isEnded.closes, f.ofLine?]
  rfl

theorem ValueItem.step (v : ValueItem) (opened : List Message) (decl : EnumDecl) (n : ℕ) :
    Progress.step ⟨ms, es, opened, some (.enum decl)⟩ ⟨String.ofList v.statement, n⟩ =
      .ok ⟨ms, es, opened, some (.enum
        { decl with values := decl.values ++ [⟨v.name.string, v.value, n⟩] })⟩ := by
  simp only [Progress.step, Progress.stepEnum, v.isEnded.closes, v.ofLine?]
  rfl

theorem closes_close (n : ℕ) : Line.closes ⟨String.ofList ['}'], n⟩ = true := by
  simp [Line.closes]

theorem step_close_message {l : Line} (h : l.closes = true) :
    Progress.step ⟨ms, es, m :: rest, none⟩ l =
      .ok (Progress.closeMessage ⟨ms, es, m :: rest, none⟩) := by
  simp [Progress.step, Progress.stepMessage, h]

theorem step_close_enum {l : Line} (h : l.closes = true) (opened : List Message)
    (decl : EnumDecl) : Progress.step ⟨ms, es, opened, some (.enum decl)⟩ l =
      .ok (Progress.addEnum ⟨ms, es, opened, none⟩ decl) := by
  simp [Progress.step, Progress.stepEnum, h, Progress.closeInner]

theorem step_close_oneof {l : Line} (h : l.closes = true) (opened : List Message)
    (group : String) : Progress.step ⟨ms, es, opened, some (.oneof group)⟩ l =
      .ok ⟨ms, es, opened, none⟩ := by
  simp [Progress.step, Progress.stepOneof, h, Progress.closeInner]

theorem openDecl_heading (p : Progress) (kind : DeclKind) (name : Ident) (n : ℕ) :
    p.openDecl kind ⟨String.ofList (heading kind name), n⟩ = .ok (p.enter kind name.string n) := by
  simp only [Progress.openDecl, String.toList_ofList, declaredName?_heading]
  cases kind <;> rfl

theorem step_heading (kind : DeclKind) (name : Ident) (n : ℕ) :
    Progress.step ⟨ms, es, m :: rest, none⟩ ⟨String.ofList (heading kind name), n⟩ =
      .ok (Progress.enter ⟨ms, es, m :: rest, none⟩ kind name.string n) := by
  simp [Progress.step, Progress.stepMessage, (isEnded_heading kind name).closes,
    declKind?_heading, openDecl_heading]

/-- The fields of a choice group, spliced into the message around it. -/
theorem steps_choices (k : ℕ) (group : Ident) (fields : List FieldItem) :
    Progress.steps ⟨ms, es, m :: rest, some (.oneof group.string)⟩
        (numbered line k (fields.map FieldItem.statement)) =
      .ok ⟨ms, es, m.extend (choicesOf line k group fields) [] [] :: rest,
        some (.oneof group.string)⟩ := by
  induction fields generalizing k m with
  | nil => simp [numbered, Progress.steps_nil, choicesOf, Message.extend_nil]
  | cons f fields ih =>
      rw [List.map_cons, numbered_cons, Progress.steps_cons (f.step _ _), ih]
      simp [Message.addField, Message.extend, choicesOf]

theorem steps_values (k : ℕ) (opened : List Message) (decl : EnumDecl) (values : List ValueItem) :
    Progress.steps ⟨ms, es, opened, some (.enum decl)⟩
        (numbered line k (values.map ValueItem.statement)) =
      .ok ⟨ms, es, opened, some (.enum ⟨decl.name, decl.line,
        decl.values ++ enumeratorsOf line k values⟩)⟩ := by
  induction values generalizing k decl with
  | nil => simp [numbered, Progress.steps_nil, enumeratorsOf]
  | cons v values ih =>
      rw [List.map_cons, numbered_cons, Progress.steps_cons (v.step opened decl _), ih]
      simp [enumeratorsOf]

/-- The lines of an enumeration after its heading. -/
theorem EnumItem.steps_body (e : EnumItem) (k : ℕ) (opened : List Message) (n : ℕ) :
    Progress.steps ⟨ms, es, opened, some (.enum ⟨e.name.string, n, []⟩)⟩
        (numbered line k (e.values.map ValueItem.statement ++ [['}']])) =
      .ok (Progress.addEnum ⟨ms, es, opened, none⟩
        ⟨e.name.string, n, enumeratorsOf line k e.values⟩) := by
  rw [numbered_append, Progress.steps_append_of_ok (steps_values k opened _ e.values),
    numbered_cons, Progress.steps_cons (step_close_enum (closes_close _) opened _)]
  rfl

mutual

theorem steps_item (k : ℕ) (m : Message) (rest : List Message) : ∀ (item : Item),
    Progress.steps ⟨ms, es, m :: rest, none⟩ (numbered line k item.statements) =
      .ok ⟨ms, es, m.extend (item.fields line k) (item.messages line k) (item.enums line k) ::
        rest, none⟩
  | .field f => by
      rw [Item.statements, numbered_cons, Progress.steps_cons (f.step _)]
      simp [numbered, Progress.steps_nil, Message.addField, Message.extend, Item.fields,
        Item.messages, Item.enums]
  | .oneof group fields => by
      rw [Item.statements, numbered_cons, Progress.steps_cons (step_heading .oneof group _)]
      simp only [Progress.enter]
      rw [numbered_append, Progress.steps_append_of_ok (steps_choices _ group fields),
        numbered_cons, Progress.steps_cons (step_close_oneof (closes_close _) _ _)]
      rfl
  | .message name items => by
      rw [Item.statements, numbered_cons, Progress.steps_cons (step_heading .message name _)]
      simp only [Progress.enter]
      rw [numbered_append, Progress.steps_append_of_ok (steps_items _ _ _ items),
        numbered_cons, Progress.steps_cons (step_close_message (closes_close _))]
      simp [numbered, Progress.steps_nil, Progress.closeMessage, Message.addMessage,
        Message.extend, Item.fields, Item.messages, Item.enums]
  | .enum e => by
      rw [Item.statements, EnumItem.statements, numbered_cons,
        Progress.steps_cons (step_heading .enum e.name _)]
      simp only [Progress.enter]
      rw [e.steps_body]
      simp [Progress.addEnum, Message.addEnum, Message.extend, Item.fields, Item.messages,
        Item.enums, EnumItem.declared]

theorem steps_items (k : ℕ) (m : Message) (rest : List Message) : ∀ (items : List Item),
    Progress.steps ⟨ms, es, m :: rest, none⟩ (numbered line k (statementsOf items)) =
      .ok ⟨ms, es, m.extend (fieldsOf line k items) (messagesOf line k items)
        (enumsOf line k items) :: rest, none⟩
  | [] => by
      simp [statementsOf, numbered, Progress.steps_nil, Message.extend_nil, fieldsOf, messagesOf,
        enumsOf]
  | item :: items => by
      rw [statementsOf, numbered_append, Progress.steps_append_of_ok (steps_item k m rest item),
        steps_items _ _ rest items, Message.extend_extend]
      simp [fieldsOf, messagesOf, enumsOf]

end

theorem step_heading_top (kind : DeclKind) (hkind : kind ≠ .oneof) (name : Ident) (n : ℕ) :
    Progress.step ⟨ms, es, [], none⟩ ⟨String.ofList (heading kind name), n⟩ =
      .ok (Progress.enter ⟨ms, es, [], none⟩ kind name.string n) := by
  simp only [Progress.step, Progress.stepTop, declKind?_heading]
  cases kind with
  | message => exact openDecl_heading _ .message name n
  | enum => exact openDecl_heading _ .enum name n
  | oneof => contradiction

theorem steps_decl (k : ℕ) (ms : List Message) (es : List EnumDecl) (d : Decl) :
    Progress.steps ⟨ms, es, [], none⟩ (numbered line k d.item.statements) =
      .ok ⟨ms ++ d.item.messages line k, es ++ d.item.enums line k, [], none⟩ := by
  cases d with
  | message name items =>
      rw [Decl.item, Item.statements, numbered_cons,
        Progress.steps_cons (step_heading_top .message (by decide) name _)]
      simp only [Progress.enter]
      rw [numbered_append, Progress.steps_append_of_ok (steps_items _ _ _ items),
        numbered_cons, Progress.steps_cons (step_close_message (closes_close _))]
      simp [numbered, Progress.steps_nil, Progress.closeMessage, Message.extend, Item.messages,
        Item.enums]
  | enum e =>
      rw [Decl.item, Item.statements, EnumItem.statements, numbered_cons,
        Progress.steps_cons (step_heading_top .enum (by decide) e.name _)]
      simp only [Progress.enter]
      rw [e.steps_body]
      simp [Progress.addEnum, Item.messages, Item.enums, EnumItem.declared]

theorem steps_decls (k : ℕ) (ms : List Message) (es : List EnumDecl) (decls : List Decl) :
    Progress.steps ⟨ms, es, [], none⟩ (numbered line k (statementsOf (decls.map Decl.item))) =
      .ok ⟨ms ++ messagesOf line k (decls.map Decl.item),
        es ++ enumsOf line k (decls.map Decl.item), [], none⟩ := by
  induction decls generalizing k ms es with
  | nil => simp [statementsOf, numbered, Progress.steps_nil, messagesOf, enumsOf]
  | cons d decls ih =>
      rw [List.map_cons, statementsOf, numbered_append,
        Progress.steps_append_of_ok (steps_decl k ms es d), ih]
      simp [messagesOf, enumsOf]

/-! ## Whole files -/

theorem File.numbered_statements (f : File) :
    numbered line 0 f.statements =
      ⟨String.ofList syntaxStatement, line 0⟩ ::
        ⟨String.ofList (packageStatement f.package), line 1⟩ ::
        numbered line 2 (statementsOf (f.decls.map Decl.item)) := rfl

theorem File.findVersion (f : File) :
    Schema.findVersion (numbered line 0 f.statements) = .ok 0 := by
  rw [f.numbered_statements]
  simp only [Schema.findVersion, firstReading?, List.zipIdx_cons, List.findSome?_cons,
    String.toList_ofList, version?_syntaxStatement, Option.map_some]

theorem File.findPackage (f : File) : Schema.findPackage (numbered line 0 f.statements) =
    .ok (1, String.ofList f.package.chars) := by
  rw [f.numbered_statements]
  simp only [Schema.findPackage, firstReading?, List.zipIdx_cons, List.findSome?_cons,
    String.toList_ofList, package?_syntaxStatement, package?_packageStatement, Option.map_none,
    Option.map_some]

theorem importsOf_numbered {k : ℕ} {statements : List (List Char)}
    (h : ∀ s ∈ statements, Grammar.import? s = none) :
    Schema.importsOf (numbered line k statements) = [] := by
  rw [Schema.importsOf, List.filterMap_eq_nil_iff]
  intro l hl
  obtain ⟨⟨s, i⟩, hs, rfl⟩ := List.mem_map.1 hl
  rw [String.toList_ofList]
  exact h s (List.fst_mem_of_mem_zipIdx hs)

theorem File.importsOf (f : File) : Schema.importsOf (numbered line 0 f.statements) = [] := by
  apply importsOf_numbered
  rw [File.statements, List.forall_mem_cons, List.forall_mem_cons]
  exact ⟨import?_syntaxStatement, import?_packageStatement f.package,
    fun s hs ↦ (isEndedOrClose_statementsOf _ s hs).import?_eq_none⟩

/-- A text that is written from a source tree declares exactly that tree, each declaration with the
number of the line on which its statement stands. -/
theorem ofText_print (f : File) (gap : ℕ → Gap) :
    Schema.ofText (f.print gap) = .ok (f.schema (lineOf gap)) := by
  have hlines := normalize_layOut gap f.isStatement
  have hdrop : (numbered (lineOf gap) 0 f.statements).drop (max 0 1 + 1) =
      numbered (lineOf gap) 2 (statementsOf (f.decls.map Decl.item)) := rfl
  have hsteps : Progress.start.steps ((numbered (lineOf gap) 0 f.statements).drop (max 0 1 + 1)) =
      .ok ⟨messagesOf (lineOf gap) 2 (f.decls.map Decl.item),
        enumsOf (lineOf gap) 2 (f.decls.map Decl.item), [], none⟩ := by
    rw [hdrop]
    exact steps_decls 2 [] [] f.decls
  rw [Schema.ofText, File.print, hlines, Schema.parse, f.findVersion, f.findPackage, f.importsOf]
  simp only [bind, Except.bind, hsteps]
  rfl

end SourceTree

end ProtoHeader

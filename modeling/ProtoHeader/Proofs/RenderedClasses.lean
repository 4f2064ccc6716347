import Mathlib
import ProtoHeader.Proofs.RenderedLines
import ProtoHeader.Proofs.Respacing

/-!
# Classes are told apart by their text

The text of a class tells which members it has, of which types and at which offsets, and how the
declarations in it are nested.  It is read from its ends towards the nested declarations: the offset
table gives the number of fields, the data members before it give the fields, and what is left of
the class after that are its nested declarations, each of which ends with its first closing line.
-/

namespace ProtoHeader

open Text Writer Header

/-! ## Lists that were put together -/

section Joined

variable {α : Type} {x : α}

theorem append_cons_inj {xs ys rest rest' : List α} (hxs : x ∉ xs) (hys : x ∉ ys)
    (h : xs ++ x :: rest = ys ++ x :: rest') : xs = ys ∧ rest = rest' := by
  classical
  have hne {zs : List α} (hzs : x ∉ zs) : ∀ z ∈ zs, decide (z ≠ x) = true :=
    fun z hz ↦ decide_eq_true (ne_of_mem_of_not_mem hz hzs)
  exact append_stop_inj (hne hxs) (hne hys) (by simp) (by simp) h

/-- Parts without the first element of the separator are found again from how many they are. -/
theorem intercalate_inj_of_notMem {sep : List α} {parts parts' : List (List α)}
    (hlength : parts.length = parts'.length) (h : ∀ p ∈ parts, x ∉ p) (h' : ∀ p ∈ parts', x ∉ p)
    (heq : (x :: sep).intercalate parts = (x :: sep).intercalate parts') : parts = parts' := by
  induction parts generalizing parts' with
  | nil => exact (List.length_eq_zero_iff.1 hlength.symm).symm
  | cons p parts ih =>
      obtain ⟨q, parts', rfl⟩ := List.exists_cons_of_length_eq_add_one hlength.symm
      obtain ⟨hp, hparts⟩ := List.forall_mem_cons.1 h
      obtain ⟨hq, hparts'⟩ := List.forall_mem_cons.1 h'
      have hrest : parts.length = parts'.length := by simpa using hlength
      rcases parts with _ | ⟨p', parts⟩
      · obtain rfl := List.length_eq_zero_iff.1 hrest.symm
        simpa using heq
      · obtain ⟨q', parts', rfl⟩ := List.exists_cons_of_length_eq_add_one hrest.symm
        rw [List.intercalate_cons_cons, List.intercalate_cons_cons, List.append_assoc,
          List.append_assoc] at heq
        obtain ⟨rfl, htail⟩ := append_cons_inj hp hq heq
        rw [ih hrest hparts hparts' (List.append_cancel_left htail)]

/-- Parts that end with their first `x` are found again. -/
theorem intercalate_inj_of_closed {y : α} {bodies bodies' : List (List α)}
    (h : ∀ b ∈ bodies, x ∉ b) (h' : ∀ b ∈ bodies', x ∉ b)
    (heq : [y].intercalate (bodies.map (· ++ [x])) = [y].intercalate (bodies'.map (· ++ [x]))) :
    bodies = bodies' := by
  have hcons (b : List α) (bs : List (List α)) : [y].intercalate ((b :: bs).map (· ++ [x])) =
      b ++ x :: if bs = [] then [] else y :: [y].intercalate (bs.map (· ++ [x])) := by
    cases bs <;> simp [List.intercalate_cons_cons]
  induction bodies generalizing bodies' with
  | nil =>
      cases bodies' with
      | nil => rfl
      | cons b' bodies' =>
          rw [hcons] at heq
          simp at heq
  | cons b bodies ih =>
      obtain ⟨hb, hbodies⟩ := List.forall_mem_cons.1 h
      cases bodies' with
      | nil =>
          rw [hcons] at heq
          simp at heq
      | cons b' bodies' =>
          obtain ⟨hb', hbodies'⟩ := List.forall_mem_cons.1 h'
          rw [hcons, hcons] at heq
          obtain ⟨rfl, hrest⟩ := append_cons_inj hb hb' heq
          by_cases hnone : bodies = [] <;> by_cases hnone' : bodies' = []
          · rw [hnone, hnone']
          · simp [hnone, hnone'] at hrest
          · simp [hnone, hnone'] at hrest
          · rw [if_neg hnone, if_neg hnone'] at hrest
            rw [ih hbodies hbodies' (List.cons.inj hrest).2]

theorem append_inj_of_forall {p : α → Bool} {xs xs' ys ys' : List α}
    (hxs : ∀ a ∈ xs, p a = true) (hxs' : ∀ a ∈ xs', p a = true) (hys : ∀ a ∈ ys, p a = false)
    (hys' : ∀ a ∈ ys', p a = false) (h : xs ++ ys = xs' ++ ys') : xs = xs' ∧ ys = ys' := by
  have hfirst := congrArg (List.filter p) h
  rw [List.filter_append, List.filter_append, List.filter_eq_self.2 hxs, List.filter_eq_self.2 hxs',
    List.filter_eq_nil_iff.2 (by simpa using hys), List.filter_eq_nil_iff.2 (by simpa using hys'),
    List.append_nil, List.append_nil] at hfirst
  subst hfirst
  exact ⟨rfl, List.append_cancel_left h⟩

theorem map_eq_map_of_forall {β γ : Type} {f : α → β} {g : α → γ} {xs ys : List α}
    (h : ∀ a ∈ xs, ∀ b ∈ ys, f a = f b → g a = g b) (heq : xs.map f = ys.map f) :
    xs.map g = ys.map g := by
  rw [← List.forall₂_eq_eq_eq, List.forall₂_map_left_iff, List.forall₂_map_right_iff,
    List.forall₂_iff_zip] at heq ⊢
  refine ⟨heq.1, fun hab ↦ ?_⟩
  obtain ⟨ha, hb⟩ := List.of_mem_zip hab
  exact h _ ha _ hb (heq.2 hab)

end Joined

/-! ## Declarations that can be printed -/

/-- The text is a name: one or more word characters. -/
def IsWord (text : String) : Prop :=
  text ≠ "" ∧ ∀ c ∈ text.toList, isWordChar c = true

/-- The text can stand for a type: it has no blanks and nothing that ends a statement. -/
def IsTypeText (text : String) : Prop :=
  text ≠ "" ∧ ∀ c ∈ text.toList, isBlank c = false ∧ c ≠ ';' ∧ c ≠ '{' ∧ c ≠ '}'

-- a text is looked through, not all characters there are
instance (text : String) : Decidable (IsWord text) :=
  @instDecidableAnd _ _ _ (List.decidableBAll _ _)

instance (text : String) : Decidable (IsTypeText text) :=
  @instDecidableAnd _ _ _ (List.decidableBAll _ _)

theorem IsWord.not_blank {text : String} (h : IsWord text) :
    ∀ c ∈ text.toList, isBlank c = false := by
  intro c hc
  apply Bool.eq_false_iff.2
  intro hblank
  exact absurd (h.2 c hc) (by simp [isWordChar_of_isBlank hblank])

theorem IsTypeText.not_blank {text : String} (h : IsTypeText text) :
    ∀ c ∈ text.toList, isBlank c = false :=
  fun c hc ↦ (h.2 c hc).1

structure EnumClass.Printable (e : EnumClass) : Prop where
  name : IsWord e.name
  values : ∀ v ∈ e.values, IsWord v.name

structure Member.Printable (f : Member) : Prop where
  name : IsWord f.name
  typeName : IsTypeText f.typeName

/-- All names are words and all types can stand for types, at whatever depth, and every field has
an offset. -/
inductive ClassDecl.Printable : ClassDecl → Prop
  | intro {c : ClassDecl} (name : IsWord c.name) (enums : ∀ e ∈ c.enums, e.Printable)
      (classes : ∀ d ∈ c.classes, d.Printable) (fields : ∀ f ∈ c.fields, f.Printable)
      (offsets : c.offsets.length = c.fields.length) : c.Printable

mutual

/-- The class without sizes and alignments, which are not printed. -/
def ClassDecl.unsized : ClassDecl → ClassDecl
  | ⟨name, enums, classes, fields, offsets, _, _⟩ =>
    ⟨name, enums, unsizedAll classes, fields, offsets, 0, 0⟩

def ClassDecl.unsizedAll : List ClassDecl → List ClassDecl
  | [] => []
  | c :: cs => c.unsized :: unsizedAll cs

end

namespace ClassDecl

theorem unsizedAll_eq_map (cs : List ClassDecl) : unsizedAll cs = cs.map unsized := by
  induction cs with
  | nil => rfl
  | cons c cs ih => rw [unsizedAll, ih, List.map_cons]

mutual

theorem render_unsized : ∀ c : ClassDecl, c.unsized.render = c.render
  | ⟨name, enums, classes, fields, offsets, size, align⟩ => by
      rw [unsized, render, render, renderAll_unsizedAll classes]

theorem renderAll_unsizedAll : ∀ cs : List ClassDecl, renderAll (unsizedAll cs) = renderAll cs
  | [] => rfl
  | c :: cs => by rw [unsizedAll, renderAll, renderAll, render_unsized c, renderAll_unsizedAll cs]

end

end ClassDecl

/-! ## Lines of printable declarations -/

theorem EnumClass.Printable.unbroken_body {e : EnumClass} (h : e.Printable) :
    ∀ l ∈ e.body, Unbroken l :=
  EnumClass.unbroken_body (unbroken_of_forall h.name.not_blank)
    fun v hv ↦ unbroken_of_forall (h.values v hv).not_blank

namespace ClassDecl

/-- The declarations nested in a class, each given by its lines before the closing one. -/
def bodies (c : ClassDecl) : List (List String) :=
  c.enums.map EnumClass.body ++ c.classes.map body

theorem blocks_eq_of_unbroken {c : ClassDecl} (henums : ∀ e ∈ c.enums, ∀ l ∈ e.body, Unbroken l)
    (hclasses : ∀ d ∈ c.classes, ∀ l ∈ d.body, Unbroken l) :
    c.blocks = c.bodies.map (· ++ ["\x7d;"]) := by
  rw [blocks, bodies, List.map_append, List.map_map, List.map_map,
    List.map_congr_left fun e he ↦ EnumClass.lines_render (henums e he),
    List.map_congr_left fun d hd ↦ ClassDecl.lines_render (hclasses d hd)]
  rfl

theorem Printable.unbroken_body {c : ClassDecl} (h : c.Printable) : ∀ l ∈ c.body, Unbroken l := by
  induction h with
  | @intro c hname henums _ hfields _ ih =>
      have hblocks : ∀ b ∈ c.blocks, ∀ l ∈ b, Unbroken l := by
        rw [blocks_eq_of_unbroken (fun e he ↦ (henums e he).unbroken_body) ih]
        simp only [bodies, List.map_append, List.forall_mem_append, List.forall_mem_map]
        exact ⟨fun e he ↦ ⟨(henums e he).unbroken_body, by decide⟩,
          fun d hd ↦ ⟨ih d hd, by decide⟩⟩
      have hmembers : ∀ f ∈ c.fields, Unbroken f.typeName ∧ Unbroken f.name := fun f hf ↦
        ⟨unbroken_of_forall (hfields f hf).typeName.not_blank,
          unbroken_of_forall (hfields f hf).name.not_blank⟩
      have hclass := unbroken_of_forall hname.not_blank
      exact Header.unbroken_classBody hclass hblocks hmembers c.offsets

theorem Printable.blocks_eq {c : ClassDecl} (h : c.Printable) :
    c.blocks = c.bodies.map (· ++ ["\x7d;"]) := by
  obtain ⟨_, henums, hclasses, _, _⟩ := h
  exact blocks_eq_of_unbroken (fun e he ↦ (henums e he).unbroken_body)
    fun d hd ↦ (hclasses d hd).unbroken_body

end ClassDecl

/-! ## The closing line -/

theorem inside_ne_closing (line : String) : inside line ≠ "\x7d;" := by
  by_cases hempty : line = ""
  · subst hempty
    decide
  · rw [inside, indented_of_ne_empty _ _ hempty]
    intro h
    simpa [defaultUnit, String.join] using congrArg (·.toList.head?) h

namespace Header

theorem closing_notMem_partLines {access : String} (haccess : access ++ ":" ≠ "\x7d;")
    (body : List String) : "\x7d;" ∉ partLines access body := by
  rw [partLines, List.mem_cons, List.mem_cons, List.mem_map]
  rintro (h | h | ⟨line, -, h⟩)
  · exact absurd h (by decide)
  · exact haccess h.symm
  · exact inside_ne_closing line h

theorem closing_notMem_classBody (name : String) (blocks : List (List String))
    (fields : List Member) (offsets : List ℕ) :
    "\x7d;" ∉ classBody name blocks fields offsets := by
  have hheading : "\x7d;" ∉ headingLines name := by
    simp only [headingLines, List.mem_cons, List.not_mem_nil, or_false]
    rintro (h | h | h | h)
    · simpa using congrArg (·.toList.head?) h
    · exact absurd h (by decide)
    · exact inside_ne_closing _ h.symm
    · exact inside_ne_closing _ h.symm
  have hnested : "\x7d;" ∉ nestedLines blocks := by
    unfold nestedLines
    split
    · exact List.not_mem_nil
    · exact closing_notMem_partLines (by decide) _
  have hfields : "\x7d;" ∉ fieldLines fields := by
    unfold fieldLines
    split
    · exact List.not_mem_nil
    · rw [List.mem_append, not_or]
      exact ⟨closing_notMem_partLines (by decide) _, closing_notMem_partLines (by decide) _⟩
  simp only [classBody, List.mem_append, not_or]
  exact ⟨⟨⟨⟨hheading, hnested⟩, closing_notMem_partLines (by decide) _⟩, hfields⟩,
    closing_notMem_partLines (by decide) _⟩

end Header

theorem EnumClass.closing_notMem_body (e : EnumClass) : "\x7d;" ∉ e.body := by
  rw [body, List.mem_cons, List.mem_map]
  rintro (h | ⟨v, -, h⟩)
  · simpa using congrArg (·.toList.head?) h
  · simpa [Header.constantLine, defaultUnit] using congrArg (·.toList.head?) h

theorem ClassDecl.closing_notMem_bodies (c : ClassDecl) : ∀ b ∈ c.bodies, "\x7d;" ∉ b := by
  simp only [bodies, List.forall_mem_append, List.forall_mem_map]
  exact ⟨fun e _ ↦ e.closing_notMem_body,
    fun d _ ↦ Header.closing_notMem_classBody d.name d.blocks d.fields d.offsets⟩

/-! ## What a line tells -/

/-- Two texts are found again from where the separator between them begins. -/
theorem append_sep_inj {x : Char} {sep s s' t t' : String} (hsep : sep.toList.head? = some x)
    (hs : x ∉ s.toList) (hs' : x ∉ s'.toList) (h : s ++ sep ++ t = s' ++ sep ++ t') :
    s = s' ∧ t = t' := by
  obtain ⟨rest, hrest⟩ := List.head?_eq_some_iff.1 hsep
  have hchars := congrArg String.toList h
  simp only [String.toList_append, hrest, List.append_assoc, List.cons_append] at hchars
  obtain ⟨hstart, hend⟩ := append_cons_inj hs hs' hchars
  exact ⟨String.toList_inj.1 hstart, String.toList_inj.1 (List.append_cancel_left hend)⟩

theorem inside_injective : Function.Injective inside := by
  intro s t h
  by_cases hs : s = "" <;> by_cases ht : t = ""
  · rw [hs, ht]
  · subst hs
    exact absurd h.symm (indented_ne_empty defaultUnit 1 ht)
  · subst ht
    exact absurd h (indented_ne_empty defaultUnit 1 hs)
  · rw [inside, inside, indented_of_ne_empty _ _ hs, indented_of_ne_empty _ _ ht] at h
    exact (String.append_right_inj _).1 h

theorem space_notMem_of_forall {text : String} (h : ∀ c ∈ text.toList, isBlank c = false) :
    ' ' ∉ text.toList :=
  fun hc ↦ absurd (h _ hc) (by decide)

namespace Header

theorem constantLine_inj {name name' : String} {v v' : ℤ} (hname : IsWord name)
    (hname' : IsWord name') (h : constantLine name v.repr = constantLine name' v'.repr) :
    name = name' ∧ v = v' := by
  have htext : name ++ " = " ++ (v.repr ++ ",") = name' ++ " = " ++ (v'.repr ++ ",") := by
    rw [← String.append_right_inj defaultUnit]
    simpa only [constantLine, String.append_assoc] using h
  obtain ⟨hname, hnumber⟩ := append_sep_inj rfl (space_notMem_of_forall hname.not_blank)
    (space_notMem_of_forall hname'.not_blank) htext
  exact ⟨hname, Int.repr_injective ((String.append_left_inj _).1 hnumber)⟩

theorem memberText_inj {f f' : Member} (hf : f.Printable) (hf' : f'.Printable)
    (h : memberText f = memberText f') : f = f' := by
  have htext : f.typeName ++ " " ++ (f.name ++ ";") = f'.typeName ++ " " ++ (f'.name ++ ";") := by
    simpa only [memberText, String.append_assoc] using h
  obtain ⟨htype, hname⟩ := append_sep_inj rfl (space_notMem_of_forall hf.typeName.not_blank)
    (space_notMem_of_forall hf'.typeName.not_blank) htext
  cases f
  cases f'
  rw [Member.mk.injEq]
  exact ⟨(String.append_left_inj _).1 hname, htype⟩

theorem notMem_natRepr {c : Char} (h : c.isDigit = false) (n : ℕ) : c ∉ n.repr.toList := by
  rw [Nat.toList_repr]
  exact notMem_toDigits h

theorem offsetTable_eq (offsets : List ℕ) : offsetTable offsets =
    "static constexpr std::array<std::size_t, " ++ (offsets.length.repr ++ "> kFieldOffsets\x7b" ++
      (", ".intercalate (offsets.map Nat.repr) ++ "\x7d;")) := by
  unfold offsetTable
  generalize ", ".intercalate (offsets.map Nat.repr) = numbers
  generalize offsets.length.repr = length
  simp only [String.append_assoc]

/-- The length that is written first tells how many numbers the table has. -/
theorem offsetTable_injective : Function.Injective offsetTable := by
  intro offsets offsets' h
  rw [offsetTable_eq, offsetTable_eq, String.append_right_inj] at h
  obtain ⟨hlength, hnumbers⟩ :=
    append_sep_inj (x := '>') rfl (notMem_natRepr rfl _) (notMem_natRepr rfl _) h
  have hjoined := congrArg String.toList ((String.append_left_inj "\x7d;").1 hnumbers)
  simp only [String.toList_intercalate, List.map_map] at hjoined
  have hdigits : ∀ offsets : List ℕ, ∀ p ∈ offsets.map (String.toList ∘ Nat.repr), ',' ∉ p := by
    intro offsets
    rw [List.forall_mem_map]
    exact fun n _ ↦ notMem_natRepr rfl n
  have hparts := intercalate_inj_of_notMem (by simpa using Nat.repr_injective hlength)
    (hdigits offsets) (hdigits offsets') hjoined
  exact List.map_injective_iff.2 (fun m n hmn ↦ Nat.repr_injective (String.toList_inj.1 hmn)) hparts

/-! ## What a class tells -/

theorem partLines_inj {access : String} {body body' : List String}
    (h : partLines access body = partLines access body') : body = body' :=
  List.map_injective_iff.2 inside_injective (List.cons.inj (List.cons.inj h).2).2

theorem append_offsetLines_inj {before before' : List String} {offsets offsets' : List ℕ}
    (h : before ++ offsetLines offsets = before' ++ offsetLines offsets') :
    before = before' ∧ offsets = offsets' := by
  obtain ⟨hbefore, hpart⟩ := List.append_inj' h (by simp [offsetLines, partLines])
  exact ⟨hbefore, offsetTable_injective (List.cons.inj (partLines_inj hpart)).1⟩

/-- The data members are the last lines that fields write, as many as there are fields. -/
theorem append_fieldLines_inj {before before' : List String} {fields fields' : List Member}
    (hlength : fields.length = fields'.length) (hfields : ∀ f ∈ fields, f.Printable)
    (hfields' : ∀ f ∈ fields', f.Printable)
    (h : before ++ fieldLines fields = before' ++ fieldLines fields') :
    before = before' ∧ fields = fields' := by
  suffices hsame : fields = fields' by
    subst hsame
    exact ⟨List.append_cancel_right h, rfl⟩
  by_cases hnone : fields = []
  · subst hnone
    exact (List.length_eq_zero_iff.1 hlength.symm).symm
  · have hnone' : fields' ≠ [] := by
      rintro rfl
      exact hnone (List.length_eq_zero_iff.1 hlength)
    rw [fieldLines, fieldLines, if_neg (by simpa using hnone), if_neg (by simpa using hnone'),
      ← List.append_assoc, ← List.append_assoc] at h
    obtain ⟨-, hprivate⟩ := List.append_inj' h (by simp [partLines, hlength])
    have hmembers := map_eq_map_of_forall (g := id)
      (fun f hf f' hf' ↦ memberText_inj (hfields f hf) (hfields' f' hf')) (partLines_inj hprivate)
    simpa using hmembers

theorem nestedLines_inj {blocks blocks' : List (List String)}
    (h : nestedLines blocks = nestedLines blocks') :
    [""].intercalate blocks = [""].intercalate blocks' := by
  cases blocks <;> cases blocks'
  · rfl
  · cases h
  · cases h
  · exact partLines_inj h

theorem headingLines_injective : Function.Injective headingLines := by
  intro name name' h
  have htext := (List.cons.inj h).1
  exact (String.append_right_inj _).1 ((String.append_left_inj _).1 htext)

theorem classBody_inj {name name' : String} {blocks blocks' : List (List String)}
    {fields fields' : List Member} {offsets offsets' : List ℕ}
    (hfields : ∀ f ∈ fields, f.Printable) (hfields' : ∀ f ∈ fields', f.Printable)
    (hoffsets : offsets.length = fields.length) (hoffsets' : offsets'.length = fields'.length)
    (h : classBody name blocks fields offsets = classBody name' blocks' fields' offsets') :
    name = name' ∧ [""].intercalate blocks = [""].intercalate blocks' ∧ fields = fields' ∧
      offsets = offsets' := by
  -- from the last line upwards: only there it is known how many lines a part takes
  obtain ⟨hbefore, rfl⟩ := append_offsetLines_inj h
  have hlength := hoffsets.symm.trans hoffsets'
  obtain ⟨hparsed, rfl⟩ := append_fieldLines_inj hlength hfields hfields' hbefore
  obtain ⟨hheading, hnested⟩ := List.append_inj (List.append_cancel_right hparsed) rfl
  exact ⟨headingLines_injective hheading, nestedLines_inj hnested, rfl, rfl⟩

end Header

theorem EnumClass.body_inj {e e' : EnumClass} (he : e.Printable) (he' : e'.Printable)
    (h : e.body = e'.body) : e = e' := by
  obtain ⟨hname, hvalues⟩ := List.cons.inj h
  have hconstants : ∀ v ∈ e.values, ∀ v' ∈ e'.values,
      Header.constantLine v.name v.value.repr = Header.constantLine v'.name v'.value.repr →
      v = v' := by
    intro v hv v' hv' hline
    obtain ⟨hname, hvalue⟩ := Header.constantLine_inj (he.values v hv) (he'.values v' hv') hline
    cases v
    cases v'
    rw [EnumConstant.mk.injEq]
    exact ⟨hname, hvalue⟩
  have hsame := map_eq_map_of_forall (g := id) hconstants hvalues
  cases e
  cases e'
  rw [EnumClass.mk.injEq]
  exact ⟨(String.append_right_inj _).1 ((String.append_left_inj _).1 hname), by simpa using hsame⟩

namespace ClassDecl

/-- The lines are those of an enumeration, by the first one. -/
def opensEnum (lines : List String) : Bool :=
  (lines.headD "").toList.head? == some 'e'

theorem opensEnum_enumBody (e : EnumClass) : opensEnum e.body = true := by
  simp [opensEnum, EnumClass.body]

theorem opensEnum_body (c : ClassDecl) : opensEnum c.body = false := by
  simp [opensEnum, body, Header.classBody, Header.headingLines]

/-- Enumerations stand before classes. -/
theorem bodies_inj {c c' : ClassDecl} (h : c.bodies = c'.bodies) :
    c.enums.map EnumClass.body = c'.enums.map EnumClass.body ∧
      c.classes.map body = c'.classes.map body := by
  have henums (c : ClassDecl) : ∀ b ∈ c.enums.map EnumClass.body, opensEnum b = true := by
    rw [List.forall_mem_map]
    exact fun e _ ↦ opensEnum_enumBody e
  have hclasses (c : ClassDecl) : ∀ b ∈ c.classes.map body, opensEnum b = false := by
    rw [List.forall_mem_map]
    exact fun d _ ↦ opensEnum_body d
  exact append_inj_of_forall (henums c) (henums c') (hclasses c) (hclasses c') h

/-- By induction on how deeply declarations are nested: a nested class is known by its lines. -/
theorem Printable.unsized_eq_of_body_eq {c : ClassDecl} (h : c.Printable) :
    ∀ {c' : ClassDecl}, c'.Printable → c.body = c'.body → c.unsized = c'.unsized := by
  induction h with
  | @intro c hname henums hclasses hfields hoffsets ih =>
      intro c' h' hbody
      have hblocks := (Printable.intro hname henums hclasses hfields hoffsets).blocks_eq
      have hblocks' := h'.blocks_eq
      obtain ⟨hname', henums', hclasses', hfields', hoffsets'⟩ := h'
      obtain ⟨hsameName, hnested, hsameFields, hsameOffsets⟩ :=
        Header.classBody_inj hfields hfields' hoffsets hoffsets' hbody
      rw [hblocks, hblocks'] at hnested
      obtain ⟨henumBodies, hclassBodies⟩ := bodies_inj
        (intercalate_inj_of_closed c.closing_notMem_bodies c'.closing_notMem_bodies hnested)
      have hsameEnums := map_eq_map_of_forall (g := id)
        (fun e he e' he' ↦ EnumClass.body_inj (henums e he) (henums' e' he')) henumBodies
      have hsameClasses := map_eq_map_of_forall
        (fun d hd d' hd' ↦ ih d hd (hclasses' d' hd')) hclassBodies
      rw [List.map_id, List.map_id] at hsameEnums
      cases c
      cases c'
      simp only [unsized, unsizedAll_eq_map]
      simp only at hsameName hsameFields hsameOffsets hsameEnums hsameClasses
      rw [hsameName, hsameFields, hsameOffsets, hsameEnums, hsameClasses]

/-- Two classes are printed alike exactly if they agree in all that they declare, at whatever depth:
in every name, number, type and offset and in the order and nesting of all declarations. -/
theorem render_eq_iff_unsized_eq {c c' : ClassDecl} (h : c.Printable) (h' : c'.Printable) :
    c.render = c'.render ↔ c.unsized = c'.unsized := by
  constructor
  · intro htext
    have hlines := congrArg Text.lines htext
    rw [lines_render h.unbroken_body, lines_render h'.unbroken_body] at hlines
    exact h.unsized_eq_of_body_eq h' (List.append_cancel_right hlines)
  · intro hsame
    rw [← render_unsized c, ← render_unsized c', hsame]

/-- A class with an enumeration and another class in it, each class with its own fields. -/
def holder (inner outer : List Member) : ClassDecl where
  name := "Outer"
  enums := [⟨"Level", [⟨"NONE", 0⟩, ⟨"LOW", -1⟩]⟩]
  classes := [⟨"Inner", [], [], inner, inner.map fun _ ↦ 0, 8, 4⟩]
  fields := outer
  offsets := outer.map fun _ ↦ 0
  size := 16
  align := 8

theorem printable_holder {inner outer : List Member} (hinner : ∀ f ∈ inner, f.Printable)
    (houter : ∀ f ∈ outer, f.Printable) : (holder inner outer).Printable := by
  have hname : IsWord "Outer" ∧ IsWord "Inner" := by decide
  have hlevel : IsWord "Level" ∧ ∀ v ∈ [EnumConstant.mk "NONE" 0, ⟨"LOW", -1⟩], IsWord v.name := by
    decide
  have hnested := Printable.intro (c := ⟨"Inner", [], [], inner, inner.map fun _ ↦ 0, 8, 4⟩) hname.2
    (List.forall_mem_nil _) (List.forall_mem_nil _) hinner (List.length_map _)
  exact .intro hname.1 (List.forall_mem_singleton.2 ⟨hlevel.1, hlevel.2⟩)
    (List.forall_mem_singleton.2 hnested) houter (List.length_map _)

theorem render_eq_iff_unsized_eq_moved :
    (holder [⟨"id", "uint32_t"⟩] []).Printable ∧ (holder [] [⟨"id", "uint32_t"⟩]).Printable ∧
      (holder [⟨"id", "uint32_t"⟩] []).render ≠ (holder [] [⟨"id", "uint32_t"⟩]).render := by
  have hid : ∀ f ∈ [Member.mk "id" "uint32_t"], f.Printable :=
    List.forall_mem_singleton.2 ⟨by decide, by decide⟩
  have hinside := printable_holder hid (List.forall_mem_nil _)
  have houtside := printable_holder (List.forall_mem_nil _) hid
  refine ⟨hinside, houtside, fun htext ↦ ?_⟩
  have hsame := (render_eq_iff_unsized_eq hinside houtside).1 htext
  simp [holder, unsized] at hsame

end ClassDecl

end ProtoHeader

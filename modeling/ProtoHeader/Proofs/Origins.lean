import ProtoHeader.Proofs.OpenElements
import ProtoHeader.Proofs.PhysicalLines
import ProtoHeader.Proofs.Renumbering

/-!
# Origins of elements

Every element of a schema comes from a line of its own.  To find it, the lines are numbered by
their places in the list before they are read: what is read then is the schema with places in the
place of line numbers.  Places increase from line to line, so its elements are in order.

Main statement: `Schema.elements_have_places`.
-/

namespace ProtoHeader

open Source

namespace Element

variable (g : ℕ → ℕ)

def renumbered : Element → Element
  | top scope =>
    top ⟨scope.messages.map (Message.revise (renumbering g)), scope.enums.map (renumbering g).enum⟩
  | message m => message (m.revise (renumbering g))
  | field f => field ((renumbering g).field f)
  | enum e => enum ((renumbering g).enum e)
  | enumerator v => enumerator (v.renumbered g)

theorem members_renumbered (e : Element) (kind : Kind) :
    (e.renumbered g).members kind = (e.members kind).map (renumbered g) := by
  cases e <;> cases kind <;>
    simp [renumbered, members, renumbering, Function.comp_def]

theorem at?_renumbered (e : Element) (a : Address) :
    (e.renumbered g).at? a = (e.at? a).map (renumbered g) := by
  induction a generalizing e with
  | nil => rfl
  | cons c rest ih =>
      rw [at?, at?, child?, child?, members_renumbered, List.getElem?_map]
      cases (e.members c.kind)[c.index]? with
      | none => rfl
      | some child => exact ih child

variable {g}

theorem CapturedFrom.renumbered {e : Element} {l : Line} (h : e.CapturedFrom l) :
    (e.renumbered g).CapturedFrom (l.renumbered g) := by
  cases e with
  | top scope => exact h
  | message m =>
      refine ⟨?_, ?_⟩
      · rw [Message.line_revise]
        exact congrArg g h.1
      · rw [Message.name_revise]
        exact h.2
  | field f => exact ⟨congrArg g h.line_eq, h.tag_pos, h.tag_lt, h.parts⟩
  | enum e => exact ⟨congrArg g h.1, h.2⟩
  | enumerator v => exact ⟨congrArg g h.line_eq, h.le_value, h.value_lt, h.parts⟩

end Element

/-! ## Lines numbered by their places -/

/-- The lines, each numbered by its place. -/
def Source.byPlace (lines : List Line) : List Line :=
  lines.mapIdx fun i l ↦ ⟨l.text, i⟩

/-- The number of the line at a place. -/
def Source.numberAt (lines : List Line) (i : ℕ) : ℕ :=
  (lines[i]?.map Line.number).getD 0

namespace Source

theorem renumbered_byPlace (lines : List Line) :
    (byPlace lines).map (Line.renumbered (numberAt lines)) = lines := by
  apply List.ext_getElem
  · simp [byPlace]
  · intro i h₁ h₂
    simp [byPlace, Line.renumbered, numberAt, h₂]

/-- The line with number `i` is the one at place `i`. -/
theorem getElem?_of_mem_byPlace {lines : List Line} {l : Line} {n : ℕ}
    (h : l ∈ (byPlace lines).drop n) :
    n ≤ l.number ∧ lines[l.number]? = some (l.renumbered (numberAt lines)) := by
  obtain ⟨i, hi⟩ := List.mem_iff_getElem?.mp h
  rw [List.getElem?_drop, byPlace, List.getElem?_mapIdx, Option.map_eq_some_iff] at hi
  obtain ⟨original, horiginal, rfl⟩ := hi
  refine ⟨Nat.le_add_right n i, ?_⟩
  simp [Line.renumbered, numberAt, horiginal]

theorem pairwise_number_byPlace (lines : List Line) :
    (byPlace lines).Pairwise (·.number < ·.number) := by
  rw [List.pairwise_iff_getElem]
  intro i j hi hj hij
  simpa [byPlace] using hij

end Source

/-! ## Places -/

/-- The element with places for line numbers from which the schema is read. -/
theorem Schema.exists_byPlace_of_parse {lines : List Line} {s : Schema}
    (h : parse lines = .ok s) :
    ∃ versionPlace packagePlace, ∃ e : Element,
      findVersion lines = .ok versionPlace ∧ findPackage lines = .ok (packagePlace, s.package) ∧
        s.content = e.renumbered (numberAt lines) ∧ e.Placed ∧
          ∀ a x, a ≠ [] → e.at? a = some x →
            ∃ l ∈ (byPlace lines).drop (max versionPlace packagePlace + 1), x.CapturedFrom l := by
  obtain ⟨versionPlace, packagePlace, progress, hversion, hpackage, hsteps, hcontent⟩ :=
    exists_steps_of_parse h
  let g := numberAt lines
  let ahead := (byPlace lines).drop (max versionPlace packagePlace + 1)
  have hahead : ahead.map (Line.renumbered g) =
      lines.drop (max versionPlace packagePlace + 1) := by
    rw [List.map_drop, renumbered_byPlace]
  have hsame : renumberedResult g (Progress.renumbered g) (Progress.start.steps ahead) =
      .ok progress := by
    rw [Progress.steps_renumbered, hahead]
    exact hsteps
  cases hplaces : Progress.start.steps ahead with
  | error fault => simp [hplaces, renumberedResult] at hsame
  | ok p =>
      rw [hplaces, renumberedResult, Except.ok.injEq] at hsame
      refine ⟨versionPlace, packagePlace, p.closeAll.content, hversion, hpackage, ?_, ?_, ?_⟩
      · rw [hcontent, ← hsame, ← Progress.renumbered_closeAll]
        rfl
      · refine Progress.placed_of_steps hplaces (fun l hl ↦ ?_) ?_
        · exact Nat.lt_of_lt_of_le (Nat.succ_pos _) (getElem?_of_mem_byPlace hl).1
        · exact (pairwise_number_byPlace lines).drop
      · intro a x ha hx
        exact Progress.exists_captured_of_steps hplaces ha hx

/-- The line of the element at an address. -/
def Element.lineAt (e : Element) (a : Address) : ℕ :=
  ((e.at? a).map line).getD 0

/-- The last line of the element at an address. -/
def Element.lastAt (e : Element) (a : Address) : ℕ :=
  ((e.at? a).map last).getD 0

namespace Schema

/-- Each element comes from the line at its place, and what it holds has its places between that
and its last one. -/
structure Places (s : Schema) (lines : List Line) (heading : ℕ) (place last : Address → ℕ) :
    Prop where
  captured : ∀ a x, s.elementAt? a = some x →
    heading < place a ∧ ∃ l, lines[place a]? = some l ∧ x.CapturedFrom l
  injective : ∀ a b, (s.elementAt? a).isSome → (s.elementAt? b).isSome → place a = place b → a = b
  increasing : ∀ a kind i j, i < j → (s.elementAt? (a ++ [⟨kind, i⟩])).isSome →
    (s.elementAt? (a ++ [⟨kind, j⟩])).isSome → place (a ++ [⟨kind, i⟩]) < place (a ++ [⟨kind, j⟩])
  owned : ∀ a b, (s.elementAt? a).isSome → (s.elementAt? b).isSome →
    (place a ≤ place b ∧ place b ≤ last a ↔ a <+: b)
  apart : ∀ a b, (s.elementAt? a).isSome → (s.elementAt? b).isSome → ¬a <+: b → ¬b <+: a →
    last a < place b ∨ last b < place a

variable {s : Schema} {lines : List Line}

theorem places_of_placed {e : Element} {heading : ℕ} (hplaced : e.Placed)
    (hcontent : s.content = e.renumbered (numberAt lines))
    (hcaptured : ∀ a x, a ≠ [] → e.at? a = some x →
      ∃ l ∈ (byPlace lines).drop (heading + 1), x.CapturedFrom l) :
    s.Places lines heading e.lineAt e.lastAt := by
  have helement : ∀ a, (s.elementAt? a).isSome → a ≠ [] ∧ ∃ y, e.at? a = some y ∧
      e.lineAt a = y.line ∧ e.lastAt a = y.last ∧
        s.elementAt? a = some (y.renumbered (numberAt lines)) := by
    intro a ha
    obtain ⟨x, hx⟩ := Option.isSome_iff_exists.mp ha
    obtain ⟨hne, hat⟩ := elementAt?_eq_some_iff.mp hx
    rw [hcontent, Element.at?_renumbered, Option.map_eq_some_iff] at hat
    obtain ⟨y, hy, rfl⟩ := hat
    exact ⟨hne, y, hy, by simp [Element.lineAt, hy], by simp [Element.lastAt, hy], hx⟩
  have howned : ∀ a b, (s.elementAt? a).isSome → (s.elementAt? b).isSome →
      (e.lineAt a ≤ e.lineAt b ∧ e.lineAt b ≤ e.lastAt a ↔ a <+: b) := by
    intro a b ha hb
    obtain ⟨-, x, hx, hline, hlast, -⟩ := helement a ha
    obtain ⟨-, y, hy, hline', -, -⟩ := helement b hb
    rw [hline, hlast, hline']
    exact hplaced.starts_within_iff hx hy
  have hspan : ∀ a, (s.elementAt? a).isSome → e.lineAt a ≤ e.lastAt a := by
    intro a ha
    obtain ⟨-, x, -, hline, hlast, -⟩ := helement a ha
    rw [hline, hlast]
    exact x.line_le_last
  refine ⟨?_, ?_, ?_, howned, ?_⟩
  · intro a x hx
    obtain ⟨hne, y, hy, hline, -, hat⟩ := helement a (Option.isSome_of_eq_some hx)
    obtain ⟨l, hl, hfrom⟩ := hcaptured a y hne hy
    obtain ⟨hle, hget⟩ := getElem?_of_mem_byPlace hl
    obtain rfl : x = y.renumbered (numberAt lines) := Option.some.inj (hx.symm.trans hat)
    rw [hline, Element.line_of_capturedFrom hfrom]
    exact ⟨hle, l.renumbered (numberAt lines), hget, hfrom.renumbered⟩
  · intro a b ha hb heq
    have hab : a <+: b := (howned a b ha hb).mp ⟨Nat.le_of_eq heq, heq ▸ hspan a ha⟩
    have hba : b <+: a := (howned b a hb ha).mp ⟨Nat.le_of_eq heq.symm, heq ▸ hspan b hb⟩
    exact hab.eq_of_length (Nat.le_antisymm hab.length_le hba.length_le)
  · intro a kind i j hij hi hj
    obtain ⟨-, x, hx, hline, -, -⟩ := helement _ hi
    obtain ⟨-, y, hy, hline', -, -⟩ := helement _ hj
    have hlast := hplaced.siblings_ordered_at hij hx hy
    have hspan := x.line_le_last
    rw [hline, hline']
    omega
  · intro a b ha hb hab hba
    obtain ⟨-, x, hx, hline, hlast, -⟩ := helement a ha
    obtain ⟨-, y, hy, hline', hlast', -⟩ := helement b hb
    rw [hline, hlast, hline', hlast']
    exact hplaced.apart hx hy hab hba

namespace Places

variable {heading : ℕ} {place last : Address → ℕ}

theorem exists_line (h : s.Places lines heading place last) {a : Address} {x : Element}
    (hx : s.elementAt? a = some x) : ∃ l, lines[place a]? = some l ∧ x.line = l.number := by
  obtain ⟨-, l, hl, hfrom⟩ := h.captured a x hx
  exact ⟨l, hl, Element.line_of_capturedFrom hfrom⟩

theorem line_mono (h : s.Places lines heading place last)
    (hlines : lines.Pairwise (·.number ≤ ·.number)) {a b : Address} {x y : Element}
    (hx : s.elementAt? a = some x) (hy : s.elementAt? b = some y) (hab : place a ≤ place b) :
    x.line ≤ y.line := by
  obtain ⟨l, hl, hxl⟩ := h.exists_line hx
  obtain ⟨l', hl', hyl⟩ := h.exists_line hy
  rw [hxl, hyl]
  rcases Nat.eq_or_lt_of_le hab with heq | hlt
  · rw [heq, hl', Option.some.injEq] at hl
    exact Nat.le_of_eq (congrArg Line.number hl.symm)
  · obtain ⟨hi, rfl⟩ := List.getElem?_eq_some_iff.mp hl
    obtain ⟨hj, rfl⟩ := List.getElem?_eq_some_iff.mp hl'
    exact List.pairwise_iff_getElem.mp hlines (place a) (place b) hi hj hlt

end Places

/-- Every element has a place among the lines after the declarations of version and package: it
comes from the line there, siblings in order, and the places from its own to its last one are those
of what it holds.  If the lines are those of a text, then the line of each element is one of the
text, and lines never decrease from place to place. -/
theorem elements_have_places (h : parse lines = .ok s) :
    ∃ versionPlace packagePlace, ∃ place last : Address → ℕ,
      findVersion lines = .ok versionPlace ∧ findPackage lines = .ok (packagePlace, s.package) ∧
        s.Places lines (max versionPlace packagePlace) place last ∧
          ∀ text, lines = normalize text →
            (∀ a x, s.elementAt? a = some x → 1 ≤ x.line ∧ x.line ≤ (Text.lines text).length) ∧
              ∀ a b x y, s.elementAt? a = some x → s.elementAt? b = some y →
                place a ≤ place b → x.line ≤ y.line := by
  obtain ⟨versionPlace, packagePlace, e, hversion, hpackage, hcontent, hplaced, hcaptured⟩ :=
    exists_byPlace_of_parse h
  have hplaces := places_of_placed hplaced hcontent hcaptured
  refine ⟨versionPlace, packagePlace, e.lineAt, e.lastAt, hversion, hpackage, hplaces, ?_⟩
  rintro text rfl
  refine ⟨fun a x hx ↦ ?_, fun a b x y hx hy ↦ ?_⟩
  · obtain ⟨l, hl, hline⟩ := hplaces.exists_line hx
    rw [hline]
    exact number_bounds_of_mem_normalize (List.mem_of_getElem? hl)
  · exact hplaces.line_mono (pairwise_number_normalize text) hx hy

/-- A schema in which two messages are never closed and two lines are alike. -/
def unclosedText : String :=
  "syntax=\"proto3\";package p;\nmessage A\x7bint32 x=1;enum E\x7bZ=0;\x7dmessage B\x7bint32 x=1;"

/-- The field of the inner message. -/
def innerField : Address :=
  [⟨.message, 0⟩, ⟨.message, 0⟩, ⟨.field, 0⟩]

theorem elements_have_places_unclosed :
    ∃ s, parse (normalize unclosedText) = .ok s ∧ (s.elementAt? innerField).isSome = true ∧
      ∃ heading place last, s.Places (normalize unclosedText) heading place last := by
  have hfound : ((parse (normalize unclosedText)).toOption.bind (·.elementAt? innerField)).isSome =
      true := by decide +kernel
  cases hparse : parse (normalize unclosedText) with
  | error fault => simp [hparse, Except.toOption] at hfound
  | ok s =>
      rw [hparse] at hfound
      obtain ⟨versionPlace, packagePlace, place, last, -, -, hplaces, -⟩ :=
        elements_have_places hparse
      exact ⟨s, rfl, hfound, _, place, last, hplaces⟩

end Schema

end ProtoHeader

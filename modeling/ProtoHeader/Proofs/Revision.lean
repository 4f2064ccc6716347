import ProtoHeader.Proofs.HeaderLayout

/-!
# Schemas revised throughout

A revision changes names, line numbers, fields and enumerations alike wherever they stand, and
keeps the tree of declarations.  Where the revised names are told apart as the old ones were, every
reference leads to the same place.  A revision that is *quiet*, so that it leaves alone what
references and sizes are read from, changes no layout.
-/

namespace ProtoHeader

/-- What is put in place of the parts of a schema. -/
structure Revision where
  package : String → String := id
  name : String → String := id
  line : ℕ → ℕ := id
  field : Field → Field := id
  enum : EnumDecl → EnumDecl := id

/-- One revision after the other. -/
def Revision.andThen (r next : Revision) : Revision where
  package := next.package ∘ r.package
  name := next.name ∘ r.name
  line := next.line ∘ r.line
  field := next.field ∘ r.field
  enum := next.enum ∘ r.enum

namespace Message

mutual

def revise (r : Revision) : Message → Message
  | ⟨name, line, fields, messages, enums⟩ =>
    ⟨r.name name, r.line line, fields.map r.field, reviseAll r messages, enums.map r.enum⟩

def reviseAll (r : Revision) : List Message → List Message
  | [] => []
  | m :: ms => m.revise r :: reviseAll r ms

end

variable (r : Revision)

theorem reviseAll_eq_map (ms : List Message) : reviseAll r ms = ms.map (revise r) := by
  induction ms with
  | nil => rfl
  | cons m ms ih => rw [reviseAll, ih, List.map_cons]

@[simp] theorem name_revise (m : Message) : (m.revise r).name = r.name m.name := by
  cases m
  rw [revise]

@[simp] theorem line_revise (m : Message) : (m.revise r).line = r.line m.line := by
  cases m
  rw [revise]

@[simp] theorem fields_revise (m : Message) : (m.revise r).fields = m.fields.map r.field := by
  cases m
  rw [revise]

@[simp] theorem messages_revise (m : Message) :
    (m.revise r).messages = m.messages.map (revise r) := by
  cases m
  rw [revise, reviseAll_eq_map]

@[simp] theorem enums_revise (m : Message) : (m.revise r).enums = m.enums.map r.enum := by
  cases m
  rw [revise]

theorem descend?_revise (m : Message) (p : Position) :
    (m.revise r).descend? p = (m.descend? p).map (revise r) := by
  induction p generalizing m with
  | nil => rfl
  | cons i rest ih =>
      rw [descend?, descend?, messages_revise, List.getElem?_map]
      cases m.messages[i]? with
      | none => rfl
      | some n => exact ih n

mutual

theorem revise_default : (m : Message) → m.revise {} = m
  | ⟨name, line, fields, messages, enums⟩ => by
      simp [revise, reviseAll_default messages]

theorem reviseAll_default : (ms : List Message) → reviseAll {} ms = ms
  | [] => rfl
  | m :: ms => by rw [reviseAll, revise_default m, reviseAll_default ms]

end

mutual

theorem revise_revise (next : Revision) :
    (m : Message) → (m.revise r).revise next = m.revise (r.andThen next)
  | ⟨name, line, fields, messages, enums⟩ => by
      simp [revise, Revision.andThen, reviseAll_reviseAll next messages]

theorem reviseAll_reviseAll (next : Revision) :
    (ms : List Message) → reviseAll next (reviseAll r ms) = reviseAll (r.andThen next) ms
  | [] => rfl
  | m :: ms => by
      rw [reviseAll, reviseAll, reviseAll, revise_revise next m, reviseAll_reviseAll next ms]

end

mutual

theorem mapFields_eq_revise (f : Field → Field) :
    (m : Message) → m.mapFields f = m.revise { field := f }
  | ⟨name, line, fields, messages, enums⟩ => by
      simp [revise, mapFields, mapFieldsAll_eq_reviseAll f messages]

theorem mapFieldsAll_eq_reviseAll (f : Field → Field) :
    (ms : List Message) → mapFieldsAll f ms = reviseAll { field := f } ms
  | [] => rfl
  | m :: ms => by
      rw [mapFieldsAll, reviseAll, mapFields_eq_revise f m, mapFieldsAll_eq_reviseAll f ms]

end

end Message

namespace Schema

def revise (r : Revision) (s : Schema) : Schema :=
  { s with
    package := r.package s.package
    messages := Message.reviseAll r s.messages
    enums := s.enums.map r.enum }

theorem revise_default (s : Schema) : s.revise {} = s := by
  simp [revise, Message.reviseAll_default]

theorem revise_revise (r next : Revision) (s : Schema) :
    (s.revise r).revise next = s.revise (r.andThen next) := by
  simp [revise, Revision.andThen, Message.reviseAll_reviseAll]

theorem mapFields_eq_revise (f : Field → Field) (s : Schema) :
    s.mapFields f = s.revise { field := f } := by
  simp [mapFields, revise, Message.mapFieldsAll_eq_reviseAll]

variable {s : Schema} {r : Revision}

@[simp] theorem messageAt?_revise (p : Position) :
    (s.revise r).messageAt? p = (s.messageAt? p).map (Message.revise r) := by
  cases p with
  | nil => rfl
  | cons i rest =>
      rw [messageAt?, messageAt?, revise, Message.reviseAll_eq_map, List.getElem?_map]
      cases s.messages[i]? with
      | none => rfl
      | some m => exact m.descend?_revise r rest

@[simp] theorem fieldsAt_revise (p : Position) :
    (s.revise r).fieldsAt p = (s.fieldsAt p).map r.field := by
  rw [fieldsAt, fieldsAt, messageAt?_revise]
  cases s.messageAt? p with
  | none => rfl
  | some m => exact m.fields_revise r

theorem scopeAt?_revise (p : Position) :
    (s.revise r).scopeAt? p = (s.scopeAt? p).map fun scope ↦
      ⟨scope.messages.map (Message.revise r), scope.enums.map r.enum⟩ := by
  cases p with
  | nil => simp [scopeAt?, revise, Message.reviseAll_eq_map]
  | cons i rest =>
      simp only [scopeAt?, messageAt?_revise]
      cases s.messageAt? (i :: rest) with
      | none => rfl
      | some m => simp

/-! ## References -/

/-- After the revision `new` declares exactly what `old` declared before. -/
def Renames (s : Schema) (r : Revision) (old new : String) : Prop :=
  ∀ p scope, s.scopeAt? p = some scope →
    (∀ m ∈ scope.messages, r.name m.name = new ↔ m.name = old) ∧
      ∀ e ∈ scope.enums, (r.enum e).name = new ↔ e.name = old

theorem findIdx?_congr_of_mem {α : Type} {p q : α → Bool} {xs : List α}
    (h : ∀ x ∈ xs, p x = q x) : xs.findIdx? p = xs.findIdx? q := by
  induction xs with
  | nil => rfl
  | cons x xs ih =>
      rw [List.findIdx?_cons, List.findIdx?_cons, h x List.mem_cons_self,
        ih fun y hy ↦ h y (List.mem_cons_of_mem x hy)]

theorem declared?_revise {old new : String} (h : s.Renames r old new) (scopes : List Position) :
    (s.revise r).declared? scopes new = s.declared? scopes old := by
  simp only [declared?, scopeAt?_revise]
  cases hscope : s.scopeAt? (scopes.head?.getD []) with
  | none => rfl
  | some scope =>
      obtain ⟨hmessages, henums⟩ := h _ scope hscope
      have hindex : (scope.messages.map (Message.revise r)).findIdx? (·.name == new) =
          scope.messages.findIdx? (·.name == old) := by
        rw [List.findIdx?_map]
        apply findIdx?_congr_of_mem
        intro m hm
        rw [Bool.eq_iff_iff]
        simpa using hmessages m hm
      have hany : (scope.enums.map r.enum).any (·.name == new) =
          scope.enums.any (·.name == old) := by
        rw [List.any_map, Bool.eq_iff_iff, List.any_eq_true, List.any_eq_true]
        apply exists_congr
        intro e
        apply and_congr_right
        intro he
        simpa using henums e he
      simp only [Option.map_some, hindex, hany]

theorem visible?_revise {old new : String} (h : s.Renames r old new) (scopes : List Position) :
    (s.revise r).visible? new scopes = s.visible? old scopes := by
  induction scopes with
  | nil => exact declared?_revise h []
  | cons scope outer ih => rw [visible?, visible?, declared?_revise h, ih]

theorem member?_revise {old new : String} (h : s.Renames r old new) (d : Declaration) :
    (s.revise r).member? d new = s.member? d old := by
  cases d with
  | message enclosing p => exact declared?_revise h (p :: enclosing)
  | enum => rfl

variable {rename : String → String}

theorem foldlM_member?_revise {names : List String}
    (h : ∀ name ∈ names, s.Renames r name (rename name)) (d : Declaration) :
    (names.map rename).foldlM (s.revise r).member? d = names.foldlM s.member? d := by
  induction names generalizing d with
  | nil => rfl
  | cons name names ih =>
      rw [List.map_cons, List.foldlM_cons, List.foldlM_cons,
        member?_revise (h name List.mem_cons_self)]
      cases s.member? d name with
      | none => rfl
      | some d' => exact ih (fun n hn ↦ h n (List.mem_cons_of_mem name hn)) d'

theorem lookup?_revise {names : List String}
    (h : ∀ name ∈ names, s.Renames r name (rename name)) (scopes : List Position) :
    (s.revise r).lookup? scopes (names.map rename) = s.lookup? scopes names := by
  cases names with
  | nil => rfl
  | cons first rest =>
      rw [List.map_cons, lookup?, lookup?, visible?_revise (h first List.mem_cons_self)]
      cases s.visible? first scopes with
      | none => rfl
      | some d => exact foldlM_member?_revise (fun n hn ↦ h n (List.mem_cons_of_mem first hn)) d

theorem map_eq_map_iff_of_forall {α β : Type} {f : α → β} {xs ys : List α}
    (h : ∀ a ∈ xs, ∀ b ∈ ys, f a = f b → a = b) : xs.map f = ys.map f ↔ xs = ys := by
  constructor
  · intro hmap
    induction xs generalizing ys with
    | nil => simpa using hmap
    | cons x xs ih =>
        cases ys with
        | nil => simp at hmap
        | cons y ys =>
            simp only [List.map_cons, List.cons.injEq] at hmap
            rw [h x List.mem_cons_self y List.mem_cons_self hmap.1, ih _ hmap.2]
            exact fun a ha b hb ↦ h a (List.mem_cons_of_mem x ha) b (List.mem_cons_of_mem y hb)
  · rintro rfl
    rfl

/-- A reference leads to the same place if its segments and those of the package are renamed as
the declarations are. -/
theorem resolve?_revise (rename : String → String) {old new : String}
    (habsolute : new.toList.head? = some '.' ↔ old.toList.head? = some '.')
    (hnames : Text.segments (Text.dropLeadingDots new) =
      (Text.segments (Text.dropLeadingDots old)).map rename)
    (hpackage : Text.segments (r.package s.package) = (Text.segments s.package).map rename)
    (hrenames : ∀ name ∈ Text.segments (Text.dropLeadingDots old),
      s.Renames r name (rename name))
    (hinj : ∀ a ∈ Text.segments (Text.dropLeadingDots old), ∀ b ∈ Text.segments s.package,
      rename a = rename b → a = b)
    (scopes : List Position) :
    (s.revise r).resolve? scopes new = s.resolve? scopes old := by
  have hprefix (k : ℕ) :
      ((Text.segments (Text.dropLeadingDots old)).take k).map rename =
        (Text.segments s.package).map rename ↔
      (Text.segments (Text.dropLeadingDots old)).take k = Text.segments s.package :=
    map_eq_map_iff_of_forall fun a ha ↦ hinj a (List.mem_of_mem_take ha)
  have hrest (k : ℕ) := lookup?_revise
    (fun name hname ↦ hrenames name (List.mem_of_mem_drop (i := k) hname)) []
  have hpackage' : Text.segments (s.revise r).package = (Text.segments s.package).map rename :=
    hpackage
  simp only [resolve?, beq_iff_eq, habsolute, hnames, hpackage', List.length_map, ← List.map_take,
    ← List.map_drop, hprefix, hrest, lookup?_revise hrenames]

end Schema

/-! ## Layouts and headers -/

/-- The revision keeps what references and sizes are read from. -/
structure Revision.Quiet (r : Revision) : Prop where
  package : ∀ name, r.package name = name
  name : ∀ name, r.name name = name
  enum : ∀ e, (r.enum e).name = e.name
  typeName : ∀ f, (r.field f).typeName = f.typeName
  isScalar : ∀ f, (r.field f).isScalar = f.isScalar
  isRepeated : ∀ f, (r.field f).isRepeated = f.isRepeated

namespace Schema

variable {s : Schema} {r : Revision} {model : DataModel}

theorem resolve?_quiet (hr : r.Quiet) (scopes : List Position) (typeName : String) :
    (s.revise r).resolve? scopes typeName = s.resolve? scopes typeName := by
  apply resolve?_revise id Iff.rfl
  · rw [List.map_id]
  · rw [hr.package, List.map_id]
  · intro name _ p scope _
    simp [hr.name, hr.enum]
  · intro a _ b _ hab
    exact hab

theorem storage_quiet (hr : r.Quiet) (scopes : List Position) (f : Field) :
    (s.revise r).storage model scopes (r.field f) = s.storage model scopes f := by
  simp only [storage, Field.scalar?, hr.typeName, hr.isScalar, hr.isRepeated, resolve?_quiet hr]

/-- Layouts agree if all fields are stored alike. -/
theorem plainLayout_revise
    (h : ∀ p, ∀ f ∈ s.fieldsAt p,
      (s.revise r).storage model p.scopes (r.field f) = s.storage model p.scopes f)
    (visiting : List Position) (p : Position) :
    (s.revise r).plainLayout model visiting p.ancestors p =
      s.plainLayout model visiting p.ancestors p := by
  induction visiting, p using walk_induction s with
  | step visiting p ih =>
      have hmember : ∀ f ∈ s.fieldsAt p,
          (s.revise r).plainMember model (p :: visiting) p.scopes (r.field f) =
            s.plainMember model (p :: visiting) p.scopes f := by
        intro f hf
        cases hs : s.storage model p.scopes f with
        | fixed extent => rw [plainMember_fixed hs, plainMember_fixed ((h p f hf).trans hs)]
        | embedded enclosing q =>
            obtain rfl := anchored_of_storage hs
            have hs' := (h p f hf).trans hs
            by_cases hq : q ∈ p :: visiting
            · rw [plainMember_visited hs hq, plainMember_visited hs' hq]
            · rw [plainMember_fresh hs hq, plainMember_fresh hs' hq,
                ih q (contains_of_storage hf hs) hq]
      rw [plainLayout_ancestors, plainLayout_ancestors, fieldsAt_revise]
      simp only [List.map_map, List.map_congr_left hmember, Function.comp_def]

theorem freshLayout_quiet (hr : r.Quiet) (p : Position) :
    (s.revise r).freshLayout model p = s.freshLayout model p := by
  rw [freshLayout, freshLayout, plainLayout_revise fun p f _ ↦ storage_quiet hr p.scopes f]

end Schema

namespace Header

variable {r r' : Revision} (layoutOf : Position → Layout)

mutual

theorem classTree_revise_congr (hname : ∀ name, safeName (r.name name) = safeName (r'.name name))
    (hmember : ∀ f, member (r.field f) = member (r'.field f))
    (henum : ∀ e, enumClass (r.enum e) = enumClass (r'.enum e)) (p : Position) :
    (m : Message) → classTree layoutOf p (m.revise r) = classTree layoutOf p (m.revise r')
  | ⟨name, line, fields, messages, enums⟩ => by
      have hclasses := classTrees_revise_congr hname hmember henum p 0 messages
      simp [Message.revise, classTree, hclasses, hname, hmember, henum, Function.comp_def]

theorem classTrees_revise_congr (hname : ∀ name, safeName (r.name name) = safeName (r'.name name))
    (hmember : ∀ f, member (r.field f) = member (r'.field f))
    (henum : ∀ e, enumClass (r.enum e) = enumClass (r'.enum e)) (p : Position) (i : ℕ) :
    (ms : List Message) → classTrees layoutOf p i (Message.reviseAll r ms) =
      classTrees layoutOf p i (Message.reviseAll r' ms)
  | [] => rfl
  | m :: ms => by
      rw [Message.reviseAll, Message.reviseAll, classTrees, classTrees,
        classTree_revise_congr hname hmember henum (p ++ [i]) m,
        classTrees_revise_congr hname hmember henum p (i + 1) ms]

end

end Header

/-- Quiet revisions that give the same members and enumerations give the same header. -/
theorem Schema.header_revise_congr {r r' : Revision} (hr : r.Quiet) (hr' : r'.Quiet)
    (hmember : ∀ f, Header.member (r.field f) = Header.member (r'.field f))
    (henum : ∀ e, Header.enumClass (r.enum e) = Header.enumClass (r'.enum e))
    (s : Schema) (options : Header.Options) :
    (s.revise r).header options = (s.revise r').header options := by
  have hlayout : (s.revise r).freshLayout options.model = (s.revise r').freshLayout options.model :=
    funext fun p ↦ (freshLayout_quiet hr p).trans (freshLayout_quiet hr' p).symm
  have hclasses : ((s.revise r).header options).classes =
      ((s.revise r').header options).classes := by
    rw [header_classes, header_classes, hlayout]
    apply Header.classTrees_revise_congr _ _ hmember henum
    intro name
    rw [hr.name, hr'.name]
  have hpackage : (s.revise r).package = (s.revise r').package :=
    (hr.package s.package).trans (hr'.package s.package).symm
  have henums : (s.revise r).enums.map Header.enumClass =
      (s.revise r').enums.map Header.enumClass := by
    simp [revise, Function.comp_def, henum]
  rw [header, header, Header.mk.injEq]
  exact ⟨by rw [hpackage], hpackage, by rw [hpackage], rfl, rfl, henums, hclasses⟩

end ProtoHeader

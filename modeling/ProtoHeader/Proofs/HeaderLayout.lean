import ProtoHeader.Header.Build
import ProtoHeader.Proofs.MemoLayout

/-!
# Layouts in a header

All classes of a header are laid out with one memo.  The header is the tree of classes that one
gets by giving every message its fresh layout, so that the class at a position carries the layout
of the message at that position.
-/

namespace ProtoHeader

/-- The class reached from this one along a path of indices. -/
def ClassDecl.descend? : ClassDecl → Position → Option ClassDecl
  | c, [] => some c
  | c, i :: rest => c.classes[i]?.bind (descend? · rest)

def ClassDecl.layout (c : ClassDecl) : Layout :=
  ⟨c.offsets, c.size, c.align⟩

namespace Header

/-- The class at a position of the header. -/
def classAt? (h : Header) : Position → Option ClassDecl
  | [] => none
  | i :: rest => h.classes[i]?.bind (·.descend? rest)

mutual

/-- The class of the message `m` at `p`, where each message has the given layout. -/
def classTree (layoutOf : Position → Layout) (p : Position) : Message → ClassDecl
  | ⟨name, _, fields, messages, enums⟩ =>
    { name := safeName name
      enums := enums.map enumClass
      classes := classTrees layoutOf p 0 messages
      fields := fields.map member
      offsets := (layoutOf p).offsets
      size := (layoutOf p).size
      align := (layoutOf p).align }

def classTrees (layoutOf : Position → Layout) (p : Position) (i : ℕ) :
    List Message → List ClassDecl
  | [] => []
  | m :: ms => classTree layoutOf (p ++ [i]) m :: classTrees layoutOf p (i + 1) ms

end

@[simp] theorem layout_classTree (layoutOf : Position → Layout) (p : Position) (m : Message) :
    (classTree layoutOf p m).layout = layoutOf p := by
  cases m
  rw [classTree, ClassDecl.layout]

theorem classes_classTree (layoutOf : Position → Layout) (p : Position) (m : Message) :
    (classTree layoutOf p m).classes = classTrees layoutOf p 0 m.messages := by
  cases m
  rw [classTree]

theorem getElem?_classTrees (layoutOf : Position → Layout) (p : Position) (i k : ℕ)
    (ms : List Message) :
    (classTrees layoutOf p i ms)[k]? = ms[k]?.map (classTree layoutOf (p ++ [i + k])) := by
  induction ms generalizing i k with
  | nil => simp [classTrees]
  | cons m ms ih =>
      rw [classTrees]
      cases k with
      | zero => simp
      | succ k =>
          rw [List.getElem?_cons_succ, List.getElem?_cons_succ, ih,
            show i + 1 + k = i + (k + 1) by omega]

/-- The class at the end of a path is that of the message at its end. -/
theorem descend?_classTree (layoutOf : Position → Layout) (p q : Position) (m : Message) :
    (classTree layoutOf p m).descend? q =
      (m.descend? q).map (classTree layoutOf (p ++ q)) := by
  induction q generalizing p m with
  | nil => simp [ClassDecl.descend?, Message.descend?]
  | cons i rest ih =>
      rw [ClassDecl.descend?, Message.descend?, classes_classTree, getElem?_classTrees]
      cases m.messages[i]? with
      | none => rfl
      | some n => simpa using ih (p ++ [i]) n

mutual

theorem yields_classDecl (s : Schema) (model : DataModel) (p : Position) : (m : Message) →
    Yields (s.Remembers model) (classDecl s model p m) (classTree (s.freshLayout model) p m)
  | ⟨name, line, fields, messages, enums⟩ => by
      have hclasses := yields_classDecls s model p 0 messages
      rw [classDecl, classTree]
      exact (s.yields_layoutAt model p).bind (hclasses.bind (.pure _))

theorem yields_classDecls (s : Schema) (model : DataModel) (p : Position) (i : ℕ) :
    (ms : List Message) → Yields (s.Remembers model) (classDecls s model p i ms)
      (classTrees (s.freshLayout model) p i ms)
  | [] => by
      rw [classDecls, classTrees]
      exact .pure []
  | m :: ms => by
      have hfirst := yields_classDecl s model (p ++ [i]) m
      have hrest := yields_classDecls s model p (i + 1) ms
      rw [classDecls, classTrees]
      exact hfirst.bind (hrest.bind (.pure _))

end

end Header

namespace Schema

theorem header_classes (s : Schema) (options : Header.Options) :
    (s.header options).classes =
      Header.classTrees (s.freshLayout options.model) [] 0 s.messages :=
  (Header.yields_classDecls s options.model [] 0 s.messages [] remembers_nil).1

theorem header_classAt? (s : Schema) (options : Header.Options) (p : Position) :
    (s.header options).classAt? p =
      (s.messageAt? p).map (Header.classTree (s.freshLayout options.model) p) := by
  cases p with
  | nil => rfl
  | cons i rest =>
      rw [Header.classAt?, header_classes, Header.getElem?_classTrees, messageAt?]
      cases s.messages[i]? with
      | none => rfl
      | some m => simpa using Header.descend?_classTree (s.freshLayout options.model) [i] rest m

/-- One memo serves any sequence of questions, and every class of a header, without changing an
answer: each layout is the one computed with nothing remembered. -/
theorem memo_layouts_fresh (s : Schema) :
    (∀ (model : DataModel) (queries : List Position),
      ((queries.mapM (s.layoutAt model)).run []).1 = queries.map (s.freshLayout model)) ∧
    ∀ (options : Header.Options) (p : Position),
      ((s.header options).classAt? p).map ClassDecl.layout =
        (s.messageAt? p).map fun _ ↦ s.freshLayout options.model p := by
  constructor
  · intro model queries
    exact (s.yields_layoutsAt model queries [] remembers_nil).1
  · intro options p
    rw [header_classAt?, Option.map_map]
    exact congrArg ((s.messageAt? p).map ·) (funext fun m ↦ Header.layout_classTree _ p m)

end Schema

end ProtoHeader

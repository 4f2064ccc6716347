import Mathlib.Logic.Function.Basic
import ProtoHeader.Command.Folder

/-!
# Commands that succeed whole or change nothing

A command does all that can fail before it writes or prints, and writes at most one file.  So where
a write is either done whole or leaves everything as it was, the same holds of the command: it fails
without a trace, or it writes the header that it would have shown.
-/

namespace ProtoHeader

/-- Surroundings in which commands run.  Files stand at places, to which paths lead; reading changes
nothing, printing only adds to what has been printed, and a write either replaces the content of one
file or leaves no trace. -/
structure Surroundings (σ Place : Type) [DecidableEq Place] where
  access : FileAccess (StateM σ)
  locate : σ → String → Option Place
  files : σ → Place → Option ByteArray
  printed : σ → String
  state_read : ∀ s path, ((access.read path).run s).2 = s
  text_read : ∀ s path text, ((access.read path).run s).1 = some text →
    ∃ place, locate s path = some place ∧ files s place = some text.toUTF8
  refused : ∀ s path text, ((access.write path text).run s).1 = false →
    files ((access.write path text).run s).2 = files s ∧
      printed ((access.write path text).run s).2 = printed s
  written : ∀ s path text, ((access.write path text).run s).1 = true →
    ∃ place, locate s path = some place ∧
      files ((access.write path text).run s).2 =
        Function.update (files s) place (some text.toUTF8) ∧
      printed ((access.write path text).run s).2 = printed s
  files_print : ∀ s text, files ((access.print text).run s).2 = files s
  printed_print : ∀ s text, printed ((access.print text).run s).2 = printed s ++ text

namespace Surroundings

open Command

variable {σ Place : Type} [DecidableEq Place]

/-! ## Steps of a command -/

section Steps

variable {α β : Type} {x : ExceptT Fault (StateM σ) α} {f : α → ExceptT Fault (StateM σ) β}
  {s t : σ}

theorem run_bind_ok {a : α} (h : x.run.run s = (.ok a, t)) :
    (x >>= f).run.run s = (f a).run.run t := by
  rw [ExceptT.run_bind, StateT.run_bind, h]
  rfl

theorem run_bind_error {fault : Fault} (h : x.run.run s = (.error fault, t)) :
    (x >>= f).run.run s = (.error fault, t) := by
  rw [ExceptT.run_bind, StateT.run_bind, h]
  rfl

theorem run_settled (result : Except Fault α) :
    (ExceptT.mk (pure result) : ExceptT Fault (StateM σ) α).run.run s = (result, s) :=
  rfl

theorem run_lift (y : StateM σ α) :
    (liftM y : ExceptT Fault (StateM σ) α).run.run s = (.ok (y.run s).1, (y.run s).2) :=
  rfl

end Steps

variable (w : Surroundings σ Place) (s : σ)

/-- The result of a command and the state that it leaves. -/
def run (command : Command) : Except Fault Unit × σ :=
  (command.run w.access).run.run s

/-- The schema of the file at a path, or what is wrong with it. -/
def loaded (input : String) : Except Fault CompilationUnit := do
  let language ← Language.ofPath input
  match ((w.access.read input).run s).1 with
  | none => .error (.inaccessible input)
  | some text => compileUnit text language

/-- Loading a schema changes nothing. -/
theorem run_load (input : String) : (load w.access input).run.run s = (w.loaded s input, s) := by
  unfold load loaded
  cases Language.ofPath input with
  | error fault => exact run_bind_error (run_settled _)
  | ok language =>
      rw [run_bind_ok (run_settled _), run_bind_ok (run_lift _), w.state_read]
      cases ((w.access.read input).run s).1 <;> rfl

theorem exists_text_of_loaded {input : String} {unit : CompilationUnit}
    (h : w.loaded s input = .ok unit) :
    ∃ text place, w.locate s input = some place ∧ w.files s place = some text.toUTF8 ∧
      compileUnit text .protobuf = .ok unit := by
  obtain ⟨language, -, h⟩ := exists_of_bind_ok h
  cases htext : ((w.access.read input).run s).1 with
  | none =>
      rw [htext] at h
      cases h
  | some text =>
      rw [htext] at h
      obtain ⟨place, hplace, hfile⟩ := w.text_read s input text htext
      cases language
      exact ⟨text, place, hplace, hfile, h⟩

theorem run_of_not_loaded {input : String} {fault : Fault} (h : w.loaded s input = .error fault)
    (next : CompilationUnit → ExceptT Fault (StateM σ) Unit) :
    (load w.access input >>= next).run.run s = (.error fault, s) :=
  run_bind_error (by rw [run_load, h])

theorem run_of_loaded {input : String} {unit : CompilationUnit} (h : w.loaded s input = .ok unit)
    (next : CompilationUnit → ExceptT Fault (StateM σ) Unit) :
    (load w.access input >>= next).run.run s = (next unit).run.run s :=
  run_bind_ok (by rw [run_load, h])

theorem run_parse {input : String} {unit : CompilationUnit} (h : w.loaded s input = .ok unit) :
    w.run s (.parse input) = (.ok (), ((w.access.print unit.dump).run s).2) :=
  w.run_of_loaded s h _

theorem run_generate_shown {input : String} {unit : CompilationUnit}
    (h : w.loaded s input = .ok unit) (guard : Option String) (model : DataModel) :
    w.run s (.generate input none guard model) =
      (.ok (), ((w.access.print (unit.headerText ⟨guard, model⟩)).run s).2) := by
  refine (w.run_of_loaded s h _).trans ?_
  cases guard <;> rfl

theorem run_generate_stored {input path header : String} {unit : CompilationUnit}
    {guard : Option String} {model : DataModel} (h : w.loaded s input = .ok unit)
    (hheader : unit.headerText ⟨guard <|> Path.stem? path, model⟩ = header) :
    w.run s (.generate input (some path) guard model) =
      (if ((w.access.write path header).run s).1 then .ok () else .error (.inaccessible path),
        ((w.access.write path header).run s).2) := by
  have hstem : guardStem (some path) guard = (guard <|> Path.stem? path) := rfl
  rw [← hstem] at hheader
  subst hheader
  refine (w.run_of_loaded s h _).trans ((run_bind_ok (run_lift _)).trans ?_)
  split <;> rfl

/-! ## Whole commands -/

theorem unchanged_of_error {command : Command} {fault : Fault}
    (h : (w.run s command).1 = .error fault) :
    w.files (w.run s command).2 = w.files s ∧ w.printed (w.run s command).2 = w.printed s := by
  cases command with
  | parse input =>
      cases hload : w.loaded s input with
      | error fault =>
          rw [run, Command.run, run_of_not_loaded w s hload]
          exact ⟨rfl, rfl⟩
      | ok unit =>
          rw [w.run_parse s hload] at h
          cases h
  | generate input output guard model =>
      cases hload : w.loaded s input with
      | error fault =>
          rw [run, Command.run, run_of_not_loaded w s hload]
          exact ⟨rfl, rfl⟩
      | ok unit =>
          cases output with
          | none =>
              rw [w.run_generate_shown s hload] at h
              cases h
          | some path =>
              -- the only step that can fail after loading is the write
              rw [w.run_generate_stored s hload rfl] at h ⊢
              apply w.refused
              by_contra hwritten
              rw [if_pos (by simpa using hwritten)] at h
              cases h

theorem exists_loaded_of_ok {input : String}
    {next : CompilationUnit → ExceptT Fault (StateM σ) Unit}
    (h : ((load w.access input >>= next).run.run s).1 = .ok ()) :
    ∃ unit, w.loaded s input = .ok unit := by
  cases hload : w.loaded s input with
  | ok unit => exact ⟨unit, rfl⟩
  | error fault =>
      rw [w.run_of_not_loaded s hload] at h
      cases h

theorem compileHeader_eq {text : String} {unit : CompilationUnit}
    (h : compileUnit text .protobuf = .ok unit) (options : Header.Options) :
    compileHeader text options = .ok (unit.headerText options) := by
  rw [compileHeader, h]
  rfl

/-- A command that fails changes no file and prints nothing.  Parsing never changes a file.  A
command that generates a header into a file replaces the content of this file alone, by what the
command without the output path prints with the guard that was given, or with the stem of the path
if none was. -/
theorem run_whole_or_nothing {σ Place : Type} [DecidableEq Place] (w : Surroundings σ Place)
    (s : σ) :
    (∀ command fault, (w.run s command).1 = .error fault →
      w.files (w.run s command).2 = w.files s ∧ w.printed (w.run s command).2 = w.printed s) ∧
    (∀ input, (w.run s (.parse input)).1 = .ok () →
      w.files (w.run s (.parse input)).2 = w.files s) ∧
    ∀ input path guard model, (w.run s (.generate input (some path) guard model)).1 = .ok () →
      ∃ source text target header,
        w.locate s input = some source ∧ w.files s source = some text.toUTF8 ∧
        compileHeader text ⟨guard <|> Path.stem? path, model⟩ = .ok header ∧
        w.locate s path = some target ∧
        w.files (w.run s (.generate input (some path) guard model)).2 =
          Function.update (w.files s) target (some header.toUTF8) ∧
        w.printed (w.run s (.generate input (some path) guard model)).2 = w.printed s ∧
        (w.run s (.generate input none (guard <|> Path.stem? path) model)).1 = .ok () ∧
        w.printed (w.run s (.generate input none (guard <|> Path.stem? path) model)).2 =
          w.printed s ++ header := by
  refine ⟨fun command fault h ↦ w.unchanged_of_error s h, ?_, ?_⟩
  · intro input h
    obtain ⟨unit, hload⟩ := w.exists_loaded_of_ok s h
    rw [w.run_parse s hload]
    exact w.files_print s unit.dump
  · intro input path guard model h
    obtain ⟨unit, hload⟩ := w.exists_loaded_of_ok s h
    obtain ⟨text, source, hsource, hfile, hunit⟩ := w.exists_text_of_loaded s hload
    obtain ⟨header, hheader⟩ : ∃ header,
        unit.headerText ⟨guard <|> Path.stem? path, model⟩ = header := ⟨_, rfl⟩
    have hstored := w.run_generate_stored s hload hheader
    have hshown := w.run_generate_shown s hload (guard <|> Path.stem? path) model
    have hwritten : ((w.access.write path header).run s).1 = true := by
      by_contra hrefused
      rw [hstored, if_neg hrefused] at h
      cases h
    obtain ⟨target, htarget, hfiles, hprinted⟩ := w.written s path _ hwritten
    have hcompile := compileHeader_eq hunit ⟨guard <|> Path.stem? path, model⟩
    rw [hheader] at hshown hcompile
    refine ⟨source, text, target, header, hsource, hfile, hcompile, htarget, ?_, ?_, ?_, ?_⟩
    · rw [hstored]
      exact hfiles
    · rw [hstored]
      exact hprinted
    · rw [hshown]
    · rw [hshown]
      exact w.printed_print s _

end Surroundings

/-! ## Folders -/

namespace Folder

/-- The content of the file at a place. -/
def content (folder : Folder) (place : List String) : Option ByteArray :=
  folder.files.lookup place

theorem lookup_put (place : List String) (bytes : ByteArray)
    (files : List (List String × ByteArray)) (q : List String) :
    (put place bytes files).lookup q = if q = place then some bytes else files.lookup q := by
  induction files with
  | nil => by_cases hq : q = place <;> simp [put, List.lookup_cons, hq, beq_false_of_ne]
  | cons file files ih =>
      obtain ⟨names, old⟩ := file
      by_cases hq : q = names
      · subst hq
        by_cases hnames : q = place <;> simp [put, hnames]
      · by_cases hnames : names = place
        · subst hnames
          simp [put, List.lookup_cons, beq_false_of_ne hq, hq]
        · simp [put, List.lookup_cons, beq_false_of_ne hq, hnames, ih]

theorem toUTF8_of_fromUTF8? {bytes : ByteArray} {text : String}
    (h : String.fromUTF8? bytes = some text) : text.toUTF8 = bytes := by
  unfold String.fromUTF8? at h
  split at h
  · cases h
    rfl
  · contradiction

theorem content_read {folder : Folder} {path text : String} (h : folder.read path = some text) :
    ∃ place, folder.locate path = some place ∧ folder.content place = some text.toUTF8 := by
  obtain ⟨place, hplace, h⟩ := Option.bind_eq_some_iff.mp h
  obtain ⟨bytes, hbytes, h⟩ := Option.bind_eq_some_iff.mp h
  exact ⟨place, hplace, hbytes.trans (congrArg some (toUTF8_of_fromUTF8? h).symm)⟩

theorem content_write {folder after : Folder} {path text : String}
    (h : folder.write path text = some after) :
    ∃ place, folder.locate path = some place ∧
      after.content = Function.update folder.content place (some text.toUTF8) := by
  obtain ⟨place, hplace, h⟩ := Option.bind_eq_some_iff.mp h
  obtain ⟨-, -, h⟩ := Option.bind_eq_some_iff.mp h
  cases h
  refine ⟨place, hplace, ?_⟩
  funext q
  rw [content, lookup_put, Function.update_apply]
  rfl

end Folder

namespace Shell

theorem run_write (shell : Shell) (path text : String) :
    (access.write path text).run shell =
      match shell.folder.write path text with
      | none => (false, shell)
      | some folder => (true, { shell with folder }) := by
  rw [access, StateT.run_bind, StateT.run_get, pure_bind]
  cases shell.folder.write path text <;> rfl

/-- A folder and what has been printed, as surroundings of commands. -/
def surroundings : Surroundings Shell (List String) where
  access := access
  locate shell := shell.folder.locate
  files shell := shell.folder.content
  printed := printed
  state_read _ _ := rfl
  text_read _ _ _ := Folder.content_read
  refused := by
    intro shell path text h
    rw [run_write] at h ⊢
    cases hwrite : shell.folder.write path text with
    | none => exact ⟨rfl, rfl⟩
    | some folder => simp [hwrite] at h
  written := by
    intro shell path text h
    rw [run_write] at h ⊢
    cases hwrite : shell.folder.write path text with
    | none => simp [hwrite] at h
    | some folder =>
        obtain ⟨place, hplace, hcontent⟩ := Folder.content_write hwrite
        exact ⟨place, hplace, hcontent, rfl⟩
  files_print _ _ := rfl
  printed_print _ _ := rfl

theorem exists_eq_ok_of_isOk {ε α : Type} {result : Except ε α} (h : result.isOk = true) :
    ∃ a, result = .ok a := by
  cases result with
  | error e => cases h
  | ok a => exact ⟨a, rfl⟩

def pingText : String :=
  "syntax = \"proto3\"; package demo; message Ping \x7b int64 at = 1; \x7d"

/-- A folder with one schema in it. -/
def ping : Shell where
  folder.files := [(["ping.proto"], pingText.toUTF8)]
  printed := ""

/-- Without a guard of its own, the header in `ping.h` is guarded by the name of that file. -/
theorem run_whole_or_nothing_ping :
    (surroundings.run ping (.generate "ping.proto" (some "./ping.h") none .ilp32)).1 = .ok () ∧
      ∃ header,
        compileHeader pingText ⟨some "ping", .ilp32⟩ = .ok header ∧
        surroundings.files
            (surroundings.run ping (.generate "ping.proto" (some "./ping.h") none .ilp32)).2
            ["ping.h"] = some header.toUTF8 ∧
        surroundings.printed
            (surroundings.run ping (.generate "ping.proto" none (some "ping") .ilp32)).2 =
          header := by
  have hisOk : (surroundings.run ping
      (.generate "ping.proto" (some "./ping.h") none .ilp32)).1.isOk = true := by
    decide +kernel
  obtain ⟨_, hok⟩ := exists_eq_ok_of_isOk hisOk
  have hstem : (none <|> Path.stem? "./ping.h") = some "ping" := by decide +kernel
  have hinput : surroundings.locate ping "ping.proto" = some ["ping.proto"] := by decide +kernel
  have houtput : surroundings.locate ping "./ping.h" = some ["ping.h"] := by decide +kernel
  obtain ⟨-, -, hgenerate⟩ := Surroundings.run_whole_or_nothing surroundings ping
  obtain ⟨source, text, target, header, hsource, htext, hcompile, htarget, hfiles, -, -,
    hprinted⟩ := hgenerate "ping.proto" "./ping.h" none .ilp32 hok
  rw [hstem] at hcompile hprinted
  obtain rfl : ["ping.proto"] = source := Option.some.inj (hinput.symm.trans hsource)
  obtain rfl : ["ping.h"] = target := Option.some.inj (houtput.symm.trans htarget)
  obtain rfl : pingText = text := String.toByteArray_inj.mp (Option.some.inj htext)
  refine ⟨hok, header, hcompile, ?_, ?_⟩
  · rw [hfiles, Function.update_self]
  · rw [hprinted]
    exact String.empty_append

end Shell

end ProtoHeader

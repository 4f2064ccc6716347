import ProtoHeader.Command.Basic

/-!
# Command line

The command line names one of two commands and its options. An option has a long name, and some
have a letter; its value is attached or stands in the next argument. The letter `v` and the long
name `verbose` are allowed anywhere and change nothing that a command writes or prints.
-/

namespace ProtoHeader.Command

inductive Opt where
  | input
  | output
  | guard
  | dataModel
  deriving DecidableEq, Repr

namespace Opt

def longName : Opt → String
  | input => "input"
  | output => "output"
  | guard => "guard"
  | dataModel => "data-model"

def letter? : Opt → Option Char
  | input => some 'i'
  | output => some 'o'
  | guard | dataModel => none

end Opt

/-- Why a command line does not name a command. -/
inductive Refusal where
  | help
  | misuse
  deriving DecidableEq, Repr

structure Given where
  input : Option String := none
  output : Option String := none
  guard : Option String := none
  model : Option DataModel := none
  deriving DecidableEq, Repr

def dataModel? (name : String) : Option DataModel :=
  if name = "lp64" then some .lp64 else if name = "ilp32" then some .ilp32 else none

/-- Sets an option. No option is set twice, and no path is empty. -/
def Given.set (given : Given) (opt : Opt) (value : String) : Except Refusal Given :=
  match opt with
  | .input =>
    if given.input.isSome || value.isEmpty then .error .misuse
    else .ok { given with input := some value }
  | .output =>
    if given.output.isSome || value.isEmpty then .error .misuse
    else .ok { given with output := some value }
  | .guard =>
    if given.guard.isSome then .error .misuse else .ok { given with guard := some value }
  | .dataModel =>
    match given.model, dataModel? value with
    | none, some model => .ok { given with model := some model }
    | _, _ => .error .misuse

/-- An argument that starts with a dash and goes on is no value. -/
def looksLikeOption (arg : String) : Bool :=
  match arg.toList with
  | '-' :: _ :: _ => true
  | _ => false

/-- What an argument that starts with a dash stands for. -/
inductive Flags where
  | quiet
  /-- The option with the value attached to it, or, without one, with that of the next argument. -/
  | option (opt : Opt) (attached : Option String)

/-- What letters after one dash stand for, if the given options are allowed. -/
def letters (allowed : List Opt) : List Char → Except Refusal Flags
  | [] => .ok .quiet
  | c :: cs =>
    if c = 'v' then letters allowed cs
    else if c = 'h' then .error .help
    else match allowed.find? (·.letter? == some c) with
      | none => .error .misuse
      | some opt =>
        match cs with
        | [] => .ok (.option opt none)
        | '=' :: value => .ok (.option opt (some (String.ofList value)))
        | value => .ok (.option opt (some (String.ofList value)))

/-- What a long name stands for, if the given options are allowed. -/
def longName (allowed : List Opt) (cs : List Char) : Except Refusal Flags :=
  let name := String.ofList (cs.takeWhile (· != '='))
  let opt? := allowed.find? (·.longName == name)
  match cs.dropWhile (· != '='), opt? with
  | _ :: value, some opt => .ok (.option opt (some (String.ofList value)))
  | [], some opt => .ok (.option opt none)
  | [], none =>
    if name = "verbose" then .ok .quiet
    else if name = "help" then .error .help
    else .error .misuse
  | _ :: _, none => .error .misuse

/-- What an argument stands for, if the given options are allowed. No argument stands alone. -/
def flags (allowed : List Opt) (arg : String) : Except Refusal Flags :=
  match arg.toList with
  | '-' :: '-' :: cs => longName allowed cs
  | '-' :: c :: cs => letters allowed (c :: cs)
  | _ => .error .misuse

/-- Reads the options of a command. Two dashes alone may end them. -/
def options (allowed : List Opt) (given : Given) : List String → Except Refusal Given
  | [] => .ok given
  | ["--"] => .ok given
  | arg :: rest =>
    match flags allowed arg with
    | .error refusal => .error refusal
    | .ok .quiet => options allowed given rest
    | .ok (.option opt (some value)) =>
      match given.set opt value with
      | .error refusal => .error refusal
      | .ok given => options allowed given rest
    | .ok (.option opt none) =>
      match rest with
      | [] => .error .misuse
      | value :: rest =>
        if looksLikeOption value then .error .misuse
        else match given.set opt value with
          | .error refusal => .error refusal
          | .ok given => options allowed given rest

def generateArguments (args : List String) : Except Refusal Command := do
  let given ← options [.input, .output, .guard, .dataModel] {} args
  match given.input with
  | none => throw .misuse
  | some input => return .generate input given.output given.guard (given.model.getD .lp64)

def parseArguments (args : List String) : Except Refusal Command := do
  let given ← options [.input] {} args
  match given.input with
  | none => throw .misuse
  | some input => return .parse input

def ofArguments : List String → Except Refusal Command
  | [] => .error .misuse
  | "gen-cpp" :: args => generateArguments args
  | "parse" :: args => parseArguments args
  | "help" :: names =>
    .error (if names ∈ [[], ["gen-cpp"], ["parse"], ["help"]] then .help else .misuse)
  | arg :: args =>
    match flags [] arg with
    | .error refusal => .error refusal
    | .ok _ => ofArguments args

def usage : String :=
  "Usage: bproto [-v]... gen-cpp -i FILE [-o FILE] [--guard STEM] [--data-model lp64|ilp32]\n" ++
  "       bproto [-v]... parse -i FILE\n"

end ProtoHeader.Command

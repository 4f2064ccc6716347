import ProtoHeader.Command.Basic

/-!
# Folders

A folder of files as a value, in which commands can be run without touching anything else. A path
is followed part by part from the folder, and every part but the last must lead into a directory.
A directory exists as far as a file stands in it.
-/

namespace ProtoHeader

/-- The files in a folder, each under the names that lead to it. -/
structure Folder where
  files : List (List String × ByteArray)

namespace Folder

/-- A file stands somewhere below the given names. -/
def isDirectory (folder : Folder) (place : List String) : Bool :=
  place.isEmpty ||
    folder.files.any fun (names, _) => place.isPrefixOf names && place.length < names.length

def follow (folder : Folder) (place : List String) : List String → Option (List String)
  | [] => some place
  | part :: rest =>
    if !folder.isDirectory place then none
    else if part = "" ∨ part = "." then folder.follow place rest
    else if part = ".." then
      if place.isEmpty then none else folder.follow place.dropLast rest
    else folder.follow (place ++ [part]) rest

/-- The place to which a path leads. A path that starts with a slash leads out of the folder. -/
def locate (folder : Folder) (path : String) : Option (List String) :=
  if path.toList.head? = some '/' then none
  else folder.follow [] ((path.toList.splitOn '/').map String.ofList)

def read (folder : Folder) (path : String) : Option String := do
  let place ← folder.locate path
  String.fromUTF8? (← folder.files.lookup place)

def put (place : List String) (content : ByteArray) :
    List (List String × ByteArray) → List (List String × ByteArray)
  | [] => [(place, content)]
  | (names, old) :: rest =>
    if names = place then (names, content) :: rest else (names, old) :: put place content rest

/-- The folder after a text is put into the file at a path, if that is possible. -/
def write (folder : Folder) (path text : String) : Option Folder := do
  let place ← folder.locate path
  guard !folder.isDirectory place
  return ⟨put place text.toUTF8 folder.files⟩

end Folder

structure Shell where
  folder : Folder
  printed : String

namespace Shell

def access : FileAccess (StateM Shell) where
  read path := do return (← get).folder.read path
  write path text := do
    let shell ← get
    match shell.folder.write path text with
    | none => return false
    | some folder =>
      set { shell with folder }
      return true
  print text := modify fun shell => { shell with printed := shell.printed ++ text }

def run (shell : Shell) (command : Command) : Except Fault Unit × Shell :=
  (command.run access).run shell

end Shell

end ProtoHeader

/-!
# Files

What is found at the paths that a configuration names, at the moment it is read. A path leads to
bytes, or the system says why there are none.

A path is walked part by part from a directory. A part that is empty or `.` stays there, `..` goes
back, and any other one leads to a directory or, at the end, to a file. So a path may lead to the
same file in many ways, but never on from a file.

## Main definitions

* `SystemError`: Why the system gives no bytes.
* `Files`: The bytes at each path.
* `Files.text`: The text at a path, if the bytes there are text.
* `Folder`: Files with the names that they have in a directory.
* `Folder.files`: The bytes at each path from the directory.
-/

namespace ForwardAuth

/-- Why the system gives no bytes: its description of the error, and the number of the error. -/
structure SystemError where
  description : String
  number : Nat
  deriving DecidableEq, Repr

namespace SystemError

/-- The error in a sentence. -/
def message (e : SystemError) : String :=
  e.description ++ " (os error " ++ toString e.number ++ ")"

/-- There is nothing at a path. -/
def noSuchFile : SystemError := ⟨"No such file or directory", 2⟩

/-- A path leads on from a file. -/
def notDirectory : SystemError := ⟨"Not a directory", 20⟩

/-- A path leads to a directory. -/
def isDirectory : SystemError := ⟨"Is a directory", 21⟩

end SystemError

/-- The bytes at each path, or why there are none. -/
abbrev Files := String → Except SystemError (List UInt8)

/-- Why bytes are no text. -/
def Files.notText : String := "stream did not contain valid UTF-8"

/-- The text at a path, or why there is none: there are no bytes, or they are no text. -/
def Files.text (files : Files) (path : String) : Except String String :=
  match files path with
  | .ok bytes => (String.fromUTF8? ⟨bytes.toArray⟩).elim (throw notText) pure
  | .error e => throw e.message

/-- Files in a directory and in directories below it, by name. Of files with the same name the
    first one counts. -/
abbrev Folder := List (String × List UInt8)

namespace Folder

/-- The part of a path does not lead anywhere. -/
def isIdle (part : String) : Bool :=
  part == "" || part == "."

/-- The parts of the name of a file. -/
def parts (name : String) : List String :=
  (name.splitOn "/").filter fun part => !isIdle part

/-- There are files below the place with these parts. -/
def isDirectory (folder : Folder) (place : List String) : Bool :=
  folder.any fun (name, _) => place.isPrefixOf (parts name) && place != parts name

/-- The file at the place with these parts. -/
def fileAt? (folder : Folder) (place : List String) : Option (List UInt8) :=
  (folder.find? fun (name, _) => parts name == place).map (·.2)

/-- Walks on from a directory. A path that leaves the folder leads nowhere. -/
def walk (folder : Folder) (place : List String) :
    List String → Except SystemError (List UInt8)
  | [] => throw .isDirectory
  | part :: rest =>
    if isIdle part then walk folder place rest
    else if part == ".." then
      if place.isEmpty then throw .noSuchFile else walk folder place.dropLast rest
    else
      let next := place ++ [part]
      if isDirectory folder next then walk folder next rest
      else
        match fileAt? folder next with
        | some bytes => if rest.isEmpty then pure bytes else throw .notDirectory
        | none => throw .noSuchFile

/-- The path of a file that is always there and empty. -/
def emptyDevice : String := "/dev/null"

/-- The bytes at each path from the directory. -/
def files (folder : Folder) : Files := fun path =>
  match path.splitOn "/" with
  | "" :: _ => if path == emptyDevice then pure [] else throw .noSuchFile
  | way => walk folder [] way

end Folder

end ForwardAuth

/-!
# File paths

Paths are texts whose parts are separated by `/`. A configuration file names other files, and a
relative name is meant from the directory that holds the configuration file. Anchoring only puts
the two side by side: neither `.` nor `..` is resolved, since what they lead to depends on links.

## Main definitions

* `Path.isAbsolute`: The path starts at the root.
* `Path.anchor`: A path taken from a directory.
* `Path.directory`: The directory that holds the file of a path.
-/

namespace ForwardAuth.Path

/-- The path starts at the root. -/
def isAbsolute (path : String) : Bool :=
  path.toList.head? == some '/'

/-- The path ends with a separator. -/
def endsWithSeparator (path : String) : Bool :=
  path.toList.getLast? == some '/'

/-- An absolute path stays what it is; a relative one is put after the directory, with one
    separator between the two. The empty directory adds nothing. -/
def anchor (base path : String) : String :=
  if isAbsolute path then path
  else if base.isEmpty || endsWithSeparator base then base ++ path
  else base ++ "/" ++ path

/-- The parts of a path between its separators. There is always one, which may be empty. -/
def parts (path : String) : List (List Char) :=
  path.toList.splitOn '/'

/-- The path with the given parts. -/
def ofParts (parts : List (List Char)) : String :=
  String.ofList (['/'].intercalate parts)

/-- The part names no directory of its own. -/
def isIdle (part : List Char) : Bool :=
  part == [] || part == ['.']

/-- The list without the idle parts it ends with. -/
def dropIdle (parts : List (List Char)) : List (List Char) :=
  (parts.reverse.dropWhile isIdle).reverse

/-- The directory with the given parts. The first one stays even if it is idle: it tells the root
    from the directory where the path is taken from. -/
def ofDirectories : List (List Char) → String
  | [] => ""
  | first :: rest =>
    let kept := dropIdle rest
    if first.isEmpty && kept.isEmpty then "/" else ofParts (first :: kept)

/-- The path without its last part: empty for a bare file name, the root for a file in the root. -/
def directory (path : String) : String :=
  ofDirectories (parts path).dropLast

end ForwardAuth.Path

import TemplateMessages.Path

/-!
# File systems

A file system is a tree of directories and files together with a working
directory.  An entry is told by the names on the way to it from the root.  A
path is followed name by name: everything in front of a slash must be a
directory, and `..` leads to the directory above.
-/

namespace TemplateMessages

inductive FileEntry where
  | directory
  | file (content : ByteArray)

/-- The names on the way from the root to an entry. -/
abbrev Location := List String

/-- The absolute path of a location. -/
def Location.text (location : Location) : String :=
  "/" ++ "/".intercalate location

structure FileSystem where
  entries : List (Location × FileEntry)
  working : Location

namespace FileSystem

/-- A file system that holds nothing but the directories down to the working
one. -/
def bare (working : Location) : FileSystem :=
  ⟨(List.range working.length).map fun depth => (working.take (depth + 1), .directory), working⟩

def enter (files : FileSystem) (working : Location) : FileSystem := ⟨files.entries, working⟩

def entry? (files : FileSystem) (location : Location) : Option FileEntry :=
  if location.isEmpty then some .directory
  else (files.entries.find? fun entry => entry.1 == location).map (·.2)

def isDirectoryAt (files : FileSystem) (location : Location) : Bool :=
  match files.entry? location with
  | some .directory => true
  | _ => false

/-- The entry of a location replaced or added. -/
def putEntry (files : FileSystem) (location : Location) (entry : FileEntry) : FileSystem :=
  ⟨files.entries.filter (fun other => other.1 != location) ++ [(location, entry)], files.working⟩

/-- The working directory as a path. -/
def workingPath (files : FileSystem) : String := Location.text files.working

/-- Follows the names of a path from a directory. -/
def follow (files : FileSystem) (location : Location) : List (List Char) → Option Location
  | [] => some location
  | piece :: rest =>
      if !files.isDirectoryAt location then none
      else if Path.isVoid piece then follow files location rest
      else if piece = ['.', '.'] then follow files location.dropLast rest
      else
        let next := location ++ [String.ofList piece]
        if (files.entry? next).isSome then follow files next rest else none

def origin (files : FileSystem) (path : String) : Location :=
  if Path.isAbsolute path then [] else files.working

/-- The location that a path leads to, when there is an entry. -/
def locate? (files : FileSystem) (path : String) : Option Location :=
  if path.isEmpty then none else files.follow (files.origin path) (Path.pieces path.toList)

def lookup? (files : FileSystem) (path : String) : Option FileEntry :=
  (files.locate? path).bind files.entry?

def isDirectory (files : FileSystem) (path : String) : Bool :=
  match files.lookup? path with
  | some .directory => true
  | _ => false

def isFile (files : FileSystem) (path : String) : Bool :=
  match files.lookup? path with
  | some (.file _) => true
  | _ => false

def exists? (files : FileSystem) (path : String) : Bool :=
  (files.lookup? path).isSome

/-- The text of a file, when it is one and its content is text. -/
def readText? (files : FileSystem) (path : String) : Option String :=
  match files.lookup? path with
  | some (.file content) => String.fromUTF8? content
  | _ => none

/-- Whether an entry may have a name. -/
def isName (name : String) : Bool :=
  !name.isEmpty && name.utf8ByteSize ≤ 255 && !name.toList.contains '\x00'

/-- Where a path leads whose last name need not exist.  Its directory must. -/
def target? (files : FileSystem) (path : String) : Option Location :=
  match (Path.pieces path.toList).getLast? with
  | none => none
  | some piece =>
      if Path.isVoid piece || piece = ['.', '.'] || !isName (String.ofList piece) then none
      else
        match files.follow (files.origin path) (Path.pieces path.toList).dropLast with
        | some directory =>
            if files.isDirectoryAt directory then some (directory ++ [String.ofList piece])
            else none
        | none => none

/-- Writes a file, in place of a present one. -/
def write? (files : FileSystem) (path : String) (content : ByteArray) : Option FileSystem :=
  (files.target? path).bind fun location =>
    if files.isDirectoryAt location then none else some (files.putEntry location (.file content))

/-- A path without the slashes at its end. -/
def dropSlashes (path : String) : String :=
  String.ofList ((path.toList.reverse.dropWhile (· == '/')).reverse)

/-- Creates a directory in a present one, unless it is there. -/
def ensureDirectory? (files : FileSystem) (path : String) : Option FileSystem :=
  if path.isEmpty || files.isDirectory path then some files
  else
    (files.target? (dropSlashes path)).bind fun location =>
      if (files.entry? location).isSome then none
      else some (files.putEntry location .directory)

/-- The directories above a path and then the path itself, from the outermost
on; `depth` bounds their count. -/
def lineage : Nat → String → List String
  | 0, path => [path]
  | depth + 1, path =>
      match Path.parent? path with
      | some directory => lineage depth directory ++ [path]
      | none => [path]

/-- Creates the directories on a list that are missing.  Those that come before
one that cannot be created stay. -/
def ensureAll (files : FileSystem) : List String → FileSystem × Bool
  | [] => (files, true)
  | path :: rest =>
      match files.ensureDirectory? path with
      | some files => ensureAll files rest
      | none => (files, false)

/-- Creates a directory and those above it; says whether it is there then. -/
def makeDirectories (files : FileSystem) (path : String) : FileSystem × Bool :=
  files.ensureAll (lineage path.length path)

/-- The entries below a directory with the names that lead to them, in the order
of a walk that takes the names of a directory in ascending order. -/
def below (files : FileSystem) (location : Location) : List (Location × FileEntry) :=
  let found := files.entries.filterMap fun entry =>
    match location.isPrefixOf? entry.1 with
    | some [] => none
    | some names => some (names, entry.2)
    | none => none
  found.mergeSort fun left right => !decide (right.1 < left.1)

end FileSystem

end TemplateMessages

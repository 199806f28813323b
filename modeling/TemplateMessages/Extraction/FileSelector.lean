import TemplateMessages.Extraction.Report
import TemplateMessages.FileSystem
import TemplateMessages.Glob

/-!
# File selection

A selector chooses files by extension and leaves out what is to be ignored.  A
pattern without wildcards names a file or a directory, and everything below it
is ignored; a pattern with wildcards is held against the path as it is written.
-/

namespace TemplateMessages.Extraction

structure FileSelector where
  extensions : List String
  /-- The ignored paths. -/
  literals : List (List Path.Component)
  globs : List (List Glob.Token)

namespace FileSelector

/-- The selector of extensions and ignored patterns; paths among these are seen
from a base.  A pattern that is not well formed ignores nothing. -/
def ofPatterns (extensions : List String) (base : String) (patterns : List String) :
    FileSelector where
  extensions := extensions
  literals := (patterns.filter fun pattern => !Glob.hasWildcard pattern).map fun pattern =>
    Path.components (Path.join base pattern)
  globs := (patterns.filter Glob.hasWildcard).filterMap Glob.tokens?

/-- Whether a path seen from the working directory is ignored. -/
def ignores (selector : FileSelector) (working path : String) : Bool :=
  let components := Path.absolute working path
  (selector.literals.any fun ignored => ignored.isPrefixOf components) ||
    selector.globs.any fun glob => Glob.accepts glob path.toList

def accepts (selector : FileSelector) (working path : String) : Bool :=
  (match Path.extension? path with
    | some extension => selector.extensions.contains extension
    | none => false) &&
    !selector.ignores working path

/-- The paths of a chain of names below a path, each one below the one before. -/
def pathsDown (path : String) : List String → List String
  | [] => []
  | name :: rest => Path.join path name :: pathsDown (Path.join path name) rest

/-- The path of an entry below a directory, when it is a file to take.  Nothing
is taken from an ignored directory. -/
def take? (selector : FileSelector) (working resource : String)
    (found : Location × FileEntry) : Option String :=
  let paths := pathsDown resource found.1
  match found.2, paths.getLast? with
  | .file _, some path =>
      if paths.any (selector.ignores working) || !selector.accepts working path then none
      else some path
  | _, _ => none

/-- The files of a resource to take, in the order of a walk. -/
def collect (selector : FileSelector) (files : FileSystem) (resource : String) :
    Except ExtractionError (List String) :=
  match files.locate? resource with
  | none => .error (.unwalkable resource)
  | some location =>
      if files.isDirectoryAt location then
        .ok ((files.below location).filterMap (selector.take? files.workingPath resource))
      else if selector.accepts files.workingPath resource then .ok [resource]
      else .ok []

end FileSelector

end TemplateMessages.Extraction

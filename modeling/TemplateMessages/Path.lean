/-!
# Paths

A path is a text of components with slashes between them.  An empty component
and the component `.` add nothing, except that a relative path may start with
`.`; the component `..` is kept, because only a file system knows what it means.
-/

namespace TemplateMessages

namespace Path

inductive Component where
  | root
  | current
  | parent
  | normal (name : String)
deriving DecidableEq, Repr

/-- The texts between slashes; there is always one more than there are slashes. -/
def pieces : List Char → List (List Char)
  | [] => [[]]
  | c :: rest =>
      if c = '/' then [] :: pieces rest
      else
        match pieces rest with
        | [] => [[c]]
        | first :: others => (c :: first) :: others

/-- A text between slashes that is no component. -/
def isVoid (piece : List Char) : Bool :=
  piece.isEmpty || piece == ['.']

/-- A path as its first component, when that is the root or `.`, and the texts
between the slashes of the rest. -/
structure Layout where
  head : Option Component
  body : List (List Char)

def layout (path : String) : Layout :=
  match path.toList with
  | '/' :: rest => ⟨some .root, pieces rest⟩
  | ['.'] => ⟨some .current, []⟩
  | '.' :: '/' :: rest => ⟨some .current, [] :: pieces rest⟩
  | other => ⟨none, pieces other⟩

def isAbsolute (path : String) : Bool :=
  path.toList.head? == some '/'

def component (piece : List Char) : Component :=
  if piece = ['.', '.'] then .parent else .normal (String.ofList piece)

def components (path : String) : List Component :=
  let layout := layout path
  layout.head.toList ++ (layout.body.filter fun piece => !isVoid piece).map component

def Component.text : Component → String
  | .root => "/"
  | .current => "."
  | .parent => ".."
  | .normal name => name

/-- The path without its last component.  What stands in front of the component
is kept as it is written, but ends in no slash and no `.`. -/
def parent? (path : String) : Option String :=
  let layout := layout path
  match layout.body.reverse.dropWhile isVoid with
  | _ :: others =>
      let kept := (others.dropWhile isVoid).reverse
      let head := match layout.head with
        | some component => component.text
        | none => ""
      some (head ++ "/".intercalate (kept.map String.ofList))
  | [] => if layout.head = some .current then some "" else none

/-- The last component, when it is a name. -/
def fileName? (path : String) : Option String :=
  match (components path).getLast? with
  | some (.normal name) => some name
  | _ => none

/-- A file name in front of its last dot and behind it.  A dot at the start of a
name begins no extension. -/
def splitName (name : String) : String × Option String :=
  let reversed := name.toList.reverse
  let extension := (reversed.takeWhile (· != '.')).reverse
  let stem := (reversed.drop (extension.length + 1)).reverse
  if stem.isEmpty then (name, none)
  else (String.ofList stem, some (String.ofList extension))

def fileStem? (path : String) : Option String :=
  (fileName? path).map fun name => (splitName name).1

def extension? (path : String) : Option String :=
  (fileName? path).bind fun name => (splitName name).2

/-- A path seen from a base; an absolute path is seen as it is. -/
def join (base path : String) : String :=
  if isAbsolute path then path
  else if base.isEmpty || base.toList.getLast? == some '/' then base ++ path
  else base ++ "/" ++ path

/-- The components of a path seen from a working directory. -/
def absolute (directory path : String) : List Component :=
  if path.isEmpty || isAbsolute path then components path
  else
    components directory ++ (components path).filter fun component => component != .current

/-- How a path is written where a message refers to it. -/
def reference (path : String) : String :=
  match parent? path, fileName? path with
  | some directory, some name => if directory.isEmpty then path else directory ++ "/" ++ name
  | _, _ => path

end Path

end TemplateMessages

import TemplateMessages.Text.Blank

/-!
# Placeholders

A message names the values it needs between percent signs.  A percent sign that
stands right behind another opens nothing, so a doubled sign is a percent sign
of the text; `unescape` makes it a single one.
-/

namespace TemplateMessages.Placeholder

/-- The characters up to the next percent sign, when there are any and the sign
is there. -/
def name? (text : List Char) : Option (List Char) :=
  let name := text.takeWhile (· != '%')
  if name.isEmpty || name.length = text.length then none else some name

/-- The walk over a text: `skip` characters belong to the placeholder found
last, and `afterSign` says that the character before was a percent sign. -/
def namesFrom (afterSign : Bool) (skip : Nat) : List Char → List (List Char)
  | [] => []
  | c :: rest =>
      match skip with
      | skip + 1 => namesFrom (c == '%') skip rest
      | 0 =>
          if c = '%' ∧ afterSign = false then
            match name? rest with
            | some name => name :: namesFrom true (name.length + 1) rest
            | none => namesFrom true 0 rest
          else namesFrom (c == '%') 0 rest

/-- The names of the placeholders of a text, in order of appearance. -/
def names (text : String) : List String :=
  (namesFrom false 0 text.toList).map String.ofList

/-- The token that a placeholder's value replaces. -/
def token (name : String) : String :=
  "%" ++ name ++ "%"

def halveSigns : List Char → List Char
  | [] => []
  | '%' :: '%' :: rest => '%' :: halveSigns rest
  | c :: rest => c :: halveSigns rest

/-- The text that a message stands for: without white space at its ends, and
with each doubled percent sign made single. -/
def unescape (text : String) : String :=
  String.ofList (halveSigns (Text.trim text).toList)

end TemplateMessages.Placeholder

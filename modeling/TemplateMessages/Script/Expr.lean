/-!
# Script expressions

Of a script only the calls of methods matter, with what their arguments say.  A
`group` stands for everything else: a construct that is nothing but its parts,
in the order in which they are visited.
-/

namespace TemplateMessages.Script

inductive Expr where
  /-- A string, or a template without substitutions.  There is no text when a
  surrogate in it is left alone. -/
  | literal (text : Option String)
  | null
  | name (word : String)
  | paren (inner : Expr)
  /-- A property by its name, outside any optional chain. -/
  | member (object : Expr) (property : String)
  /-- A call outside any optional chain, with the line on which it starts. -/
  | call (callee : Expr) (arguments : List Expr) (line : Nat)
  | group (parts : List Expr)
deriving Repr, Inhabited

namespace Expr

/-- A construct of parts that have nothing to say together. -/
def ofParts (parts : List Expr) : Expr :=
  match parts with
  | [part] => part
  | _ => .group parts

end Expr

end TemplateMessages.Script

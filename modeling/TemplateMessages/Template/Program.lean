import TemplateMessages.Template.Filter
import TemplateMessages.Template.Node

/-!
# Programs

A template is compiled to a list of instructions, and running them yields the
text that the template renders.  A variable that is set is seen by everything
behind it.
-/

namespace TemplateMessages.Template

inductive Instruction where
  | text (data : String)
  | print (expr : Expr)
  | set (name : String) (value : Expr)
deriving Repr, BEq

namespace Node

mutual

/-- The program of a tree.  A default domain compiles to nothing. -/
def program : Node → List Instruction
  | .text data _ => [.text data]
  | .print expr _ => [.print expr]
  | .set name value _ => [.set name value]
  | .body nodes _ => programAll nodes
  | .trans tag => [.print tag.expression]
  | .defaultDomain _ _ => []

def programAll : List Node → List Instruction
  | [] => []
  | node :: rest => program node ++ programAll rest

end

end Node

/-- Runs a program and returns the text that it prints. -/
def run (filters : List Filter) (context : Context) :
    List Instruction → Except RenderError String
  | [] => .ok ""
  | .text data :: rest => do
      let text ← run filters context rest
      return data ++ text
  | .print expr :: rest => do
      let value ← expr.evaluate filters context
      let text ← run filters context rest
      return value.display ++ text
  | .set name value :: rest => do
      let value ← value.evaluate filters context
      run filters (context.put name value) rest

end TemplateMessages.Template

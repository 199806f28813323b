import TemplateMessages.Template.Lexer
import TemplateMessages.Template.Node.Parser
import TemplateMessages.Template.Program

/-!
# Template sources

The code of a template, with the name that its errors carry.
-/

namespace TemplateMessages.Template

structure Source where
  code : String
  name : Option String
deriving DecidableEq, Repr

/-- The block tags of a template that is not translated. -/
def coreTags : List BlockTag := [.set]

def allTags : List BlockTag := [.set, .trans, .defaultDomain]

namespace Source

/-- The tree of a source as it is written. -/
def read (source : Source) (tags : List BlockTag) : Except TemplateError Node :=
  match tokenize source.code with
  | .error error => .error ((TemplateError.malformed error).inTemplate source.name)
  | .ok tokens =>
      (parseNodes tags (.ofTokens tokens)).mapError fun error => error.inTemplate source.name

end Source

/-- The text of a tree. -/
def Node.render (node : Node) (filters : List Filter) (context : Context) :
    Except TemplateError String :=
  (run filters context node.program).mapError .render

end TemplateMessages.Template

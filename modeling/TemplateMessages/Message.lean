import TemplateMessages.Template.DomainScope

/-!
# Messages

A message is a text to translate that a template or a script declares.  Its
domain may be known, absent, or given by an expression whose value is not known
before the template is rendered.
-/

namespace TemplateMessages

inductive MessageDomain where
  | literal (domain : String)
  | undefined
deriving DecidableEq, Repr

namespace MessageDomain

/-- The domain that collects the messages of unknown domain. -/
def undefinedName : String := "_undefined"

def name : MessageDomain → String
  | .literal domain => domain
  | .undefined => undefinedName

/-- The domain that an expression gives: known when it is a constant. -/
def ofExpr (expr : Template.Expr) : MessageDomain :=
  match expr.constant? with
  | some value => .literal value.display
  | none => .undefined

end MessageDomain

structure Message where
  original : String
  /-- The line of the construct that declares the message. -/
  line : Nat
  plural : Option String
  domain : Option MessageDomain
  notes : Option String
  context : Option String
deriving DecidableEq, Repr

namespace Message

open Template

/-- The message that a trans tag declares. -/
def ofTag (tag : TransTag) : Message :=
  ⟨tag.body, tag.line, tag.plural, tag.domain.map MessageDomain.ofExpr, tag.notes, tag.context⟩

/-- The message that an expression declares: a string constant under the filter
`trans` does. -/
def ofExpr? : Expr → Option Message
  | .filter subject word arguments line =>
      if word = TransTag.filterName then
        let literal (name : String) : Option String :=
          (findArgument arguments name).bind Expr.stringConstant?
        subject.stringConstant?.map fun original =>
          ⟨original, line, literal "plural",
            (findArgument arguments "domain").map MessageDomain.ofExpr, none, literal "context"⟩
      else none
  | _ => none

/-- The message that a step of a walk meets. -/
def ofStep? : Step → Option Message
  | .enter (.trans tag) => some (ofTag tag)
  | .visit expr => ofExpr? expr
  | _ => none

/-- The messages of a tree, in the order of the walk. -/
def ofNode (node : Node) : List Message :=
  node.walk.filterMap ofStep?

end Message

end TemplateMessages

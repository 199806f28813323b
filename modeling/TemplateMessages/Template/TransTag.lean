import TemplateMessages.Placeholder
import TemplateMessages.Template.Expr

/-!
# Trans tags

A trans tag holds a message of the template.  When it is rendered it becomes
the filter `trans` on that message: every placeholder of the message is bound
to the variable of its name, or to the count for `count`, unless the tag binds
it itself.
-/

namespace TemplateMessages.Template

structure TransTag where
  body : String
  plural : Option String
  domain : Option Expr
  count : Option Expr
  vars : Option Expr
  notes : Option String
  context : Option String
  line : Nat
deriving Repr, BEq

namespace TransTag

/-- The domain of a tag that names none. -/
def defaultDomain : String := "messages"

/-- The name of the filter that translates. -/
def filterName : String := "trans"

/-- The expressions of a tag, in the order in which they are visited. -/
def expressions (tag : TransTag) : List Expr :=
  tag.count.toList ++ tag.vars.toList ++ tag.domain.toList

/-- Binds a placeholder that no entry with a constant key binds. -/
def bindPlaceholder (count : Option Expr) (entries : List (Expr × Expr)) (name : String) :
    List (Expr × Expr) :=
  let key := Placeholder.token name
  if entries.any fun entry => entry.1.stringConstant? == some key then entries
  else
    let value := match count with
      | some count => if name = "count" then count else .name name
      | none => .name name
    entries ++ [(.string key, value)]

/-- The placeholders of the message and of its plural, read as one text. -/
def placeholders (tag : TransTag) : List String :=
  Placeholder.names (tag.body ++ tag.plural.getD "")

/-- The mapping of replacements: the entries of the tag's own mapping and those
of the placeholders it leaves open.  Any other expression is merged over the
latter when the tag is rendered. -/
def replacements (tag : TransTag) : Expr :=
  let own := match tag.vars with
    | some (.map entries) => entries
    | _ => []
  let entries := tag.placeholders.foldl (bindPlaceholder tag.count) own
  match tag.vars with
  | none => .map entries
  | some (.map _) => .map entries
  | some vars => .merge (.map entries) vars

/-- The expression that a tag prints. -/
def expression (tag : TransTag) : Expr :=
  let domain := tag.domain.getD (.string defaultDomain)
  let context := match tag.context with
    | some context => .string (Text.trim context)
    | none => .null
  let counted := match tag.plural, tag.count with
    | some plural, some count =>
        [.positional (.string (Placeholder.unescape plural)), .positional count]
    | _, _ => []
  .filter (.string (Placeholder.unescape tag.body)) filterName
    ([.positional tag.replacements, .positional domain, .positional context] ++ counted)
    tag.line

end TransTag

end TemplateMessages.Template

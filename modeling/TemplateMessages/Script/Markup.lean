import TemplateMessages.Script.Expression

/-!
# Markup

An element has a name, attributes and children.  Between its tags everything is
text but other elements and expressions in braces, so the readers of children
leave the cursor right behind what they take.
-/

namespace TemplateMessages.Script.Grammar

open Reader

variable (grammar : Grammar)

def isTagChar (c : Char) : Bool :=
  isNameChar c || c == '-' || c == ':' || c == '.'

/-- The name of an element or an attribute. -/
def tagName : Reader String := do
  match ← rest with
  | c :: others =>
      if isNameStart c then
        let name := c :: others.takeWhile isTagChar
        take name.length
        return String.ofList name
      else failure
  | [] => failure

/-- A quoted value, in which nothing is escaped. -/
def attributeText : Reader (List Expr) := do
  match ← rest with
  | quote :: others =>
      if quote == '"' || quote == '\'' then
        let text := others.takeWhile (· != quote)
        if text.length = others.length then failure
        take (text.length + 2)
        return []
      else failure
  | [] => failure

/-- An expression in braces. -/
def braced : Reader (List Expr) := do
  punct "\x7b"
  let _ ← eat "..."
  let value ← grammar.expression .free
  punct "\x7d"
  return [value]

def attributeValue : Reader (List Expr) := do
  match ← rest with
  | '{' :: _ => grammar.braced
  | '<' :: _ =>
      let element ← grammar.markup
      toToken
      return [element]
  | _ => attributeText

def tagAttribute : Reader (Option (List Expr)) := do
  match ← rest with
  | [] => failure
  | c :: _ =>
      if c == '{' then some <$> grammar.braced
      else if isNameStart c then
        let _ ← tagName
        if ← isAtChar '=' then
          take 1
          some <$> grammar.attributeValue
        else return some []
      else return none

/-- An expression in braces between tags, which may be missing. -/
def bracedChild : Reader (List Expr) := do
  punct "\x7b"
  if ← isAt "\x7d" then
    charRaw '}'
    return []
  let _ ← eat "..."
  let value ← grammar.expression .free
  charRaw '}'
  return [value]

/-- Text between tags, taken a character at a time; an element; or an expression
in braces. -/
def child : Reader (Option (List Expr)) := do
  match ← rest with
  | [] => failure
  | '<' :: '/' :: _ => return none
  | '<' :: _ =>
      let element ← grammar.markup
      return some [element]
  | '{' :: _ => some <$> grammar.bracedChild
  | _ =>
      takeRaw 1
      return some []

/-- The closing tag of an element, which repeats its name. -/
def closingTag (name : String) : Reader Unit := do
  take 1
  take 1
  let found ← if ← isAtChar '>' then pure "" else tagName
  if found != name then failure
  charRaw '>'

/-- An element; one without a name only groups its children. -/
def element : Reader Expr := do
  char '<'
  let name ← if ← isAtChar '>' then pure "" else tagName
  if ← isAtChar '<' then grammar.typeArguments
  let attributes ← if name.isEmpty then pure [] else grammar.repeated grammar.tagAttribute
  if ← isAtChar '/' then
    take 1
    charRaw '>'
    return .group attributes.flatten
  else
    charRaw '>'
    let children ← grammar.repeated grammar.child
    closingTag name
    return .group (attributes.flatten ++ children.flatten)

end TemplateMessages.Script.Grammar

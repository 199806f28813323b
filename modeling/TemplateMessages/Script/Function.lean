import TemplateMessages.Script.Type

/-!
# Bindings, functions and classes

The readers of this module yield the expressions of a construct in the order in
which they are visited: default values in front of bodies, and the body of a
class in front of what it extends.
-/

namespace TemplateMessages.Script.Grammar

open Reader

variable (grammar : Grammar)

/-- Takes a private name. -/
def privateName : Reader Unit := do
  charRaw '#'
  let _ ← anyWord

/-- The name of a property; a computed one has an expression. -/
def propertyKey : Reader (List Expr) := do
  match ← rest with
  | [] => failure
  | c :: _ =>
      if c == '[' then
        take 1
        let key ← grammar.expression .free
        punct "]"
        return [key]
      else if c == '"' || c == '\'' then
        let _ ← string
        return []
      else if c == '#' then
        privateName
        return []
      else if isWordStart c then
        let _ ← anyWord
        return []
      else
        let _ ← number
        return []

/-- A value behind an equals sign, if there is one. -/
def initializer (place : Place) : Reader (List Expr) := do
  if ← eat "=" then
    let value ← grammar.assignment place
    return [value]
  else return []

/-- A binding with its default. -/
def bindingElement : Reader (List Expr) := do
  let inner ← grammar.binding
  let value ← grammar.initializer .free
  return inner ++ value

/-- A property of an object pattern: a key with a binding, or a name for both. -/
def bindingProperty : Reader (List Expr) := do
  if ← eat "..." then grammar.binding
  else
    let keyed : Reader (List Expr) := do
      let key ← grammar.propertyKey
      punct ":"
      let element ← grammar.bindingElement
      return key ++ element
    let short : Reader (List Expr) := do
      let _ ← identifier
      grammar.initializer .free
    keyed <|> short

/-- An item of an array pattern, which may be left out. -/
def bindingItem : Reader (List Expr) := do
  if ← isAt "," then return []
  else if ← eat "..." then grammar.binding
  else grammar.bindingElement

def anyBinding : Reader (List Expr) := do
  if ← eat "\x7b" then grammar.listTo "\x7d" grammar.bindingProperty
  else if ← eat "[" then grammar.listTo "]" grammar.bindingItem
  else
    let _ ← identifier
    return []

/-- The words in front of a parameter that make it a property. -/
def parameterModifiers : List String :=
  ["public", "private", "protected", "readonly", "override"]

/-- What a parameter starts with behind its modifiers. -/
def startsBinding : Reader Bool := do
  match ← rest with
  | c :: _ => return isWordStart c || c == '{' || c == '['
  | [] => return false

def parameter : Reader (List Expr) := do
  let _ ← grammar.repeated do
    let word ← peekWord
    if parameterModifiers.contains word && (← canRead do
        let _ ← anyWord
        if !(← startsBinding) then failure) then some <$> anyWord
    else return none
  let _ ← eat "..."
  let inner ← if ← eatWord "this" then pure [] else grammar.binding
  let _ ← eat "?"
  grammar.annotation
  let value ← grammar.initializer .free
  return inner ++ value

def parameters : Reader (List Expr) := do
  punct "("
  grammar.listTo ")" grammar.parameter

/-- Statements up to a closing brace. -/
def statementsToBrace : Reader (List Expr) := do
  let found ← grammar.repeated do
    if (← isAt "\x7d") || (← isAtEnd) then return none
    else some <$> grammar.statement
  punct "\x7d"
  return found

def block : Reader (List Expr) := do
  punct "\x7b"
  grammar.statementsToBrace

/-- A function from its type parameters on.  Where it may be left out, a body is
read only if there is one. -/
def functionRest (needsBody : Bool) : Reader (List Expr) := do
  grammar.optionalTypeParameters
  let inputs ← grammar.parameters
  grammar.annotation
  if needsBody || (← isAt "\x7b") then
    let body ← grammar.block
    return inputs ++ body
  else
    statementEnd
    return inputs

/-- A function behind the word that starts it.  It is no method, even inside
one. -/
def functionAfterWord (needsName needsBody : Bool) : Reader Expr := do
  let _ ← eat "*"
  if !(← isAt "(") && !(← isAtChar '<') then let _ ← identifier
  else if needsName then failure
  let parts ← within false (grammar.functionRest needsBody)
  return .group parts

/-- The words in front of a member of a class. -/
def memberModifiers : List String :=
  ["public", "private", "protected", "static", "abstract", "readonly", "declare", "override",
    "async", "accessor", "get", "set"]

/-- The modifiers that can end their line. -/
def freeModifiers : List String := ["static", "get", "set"]

/-- The modifiers that only a method has. -/
def functionModifiers : List String := ["async", "get", "set"]

/-- Whether a word is a modifier of what follows it and not itself a name. -/
def isModifier (words : List String) : Reader Bool := do
  let word ← peekWord
  if words.contains word then
    canRead do
      let _ ← anyWord
      if (← afterLineEnd) && !freeModifiers.contains word then failure
      match ← rest with
      | c :: _ =>
          if ['(', '=', ';', ':', '?', '!', '}', ',', '<'].contains c then failure
      | [] => failure
  else return false

/-- The signature of a class that is indexed by keys of a type. -/
def indexSignature : Reader (List Expr) := do
  punct "["
  let _ ← identifier
  punct ":"
  grammar.type
  punct "]"
  grammar.annotation
  statementEnd
  return []

/-- A method or a property behind its modifiers. -/
def memberBody (modifiers : List String) : Reader (List Expr) := do
  let isMethod := (← eat "*") || modifiers.any functionModifiers.contains
  let key ← grammar.propertyKey
  if !(← eat "?") then let _ ← eat "!"
  if isMethod || (← isAt "(") || (← isAtChar '<') then
    let parts ← grammar.functionRest false
    return key ++ parts
  else
    grammar.annotation
    let value ← grammar.initializer .free
    statementEnd
    return key ++ value

def classMember : Reader (List Expr) := do
  if ← eat ";" then return []
  let initialisation : Reader (List Expr) := do
    keyword "static"
    grammar.block
  let member : Reader (List Expr) := do
    let modifiers ← grammar.repeated do
      if ← isModifier memberModifiers then some <$> anyWord else return none
    grammar.indexSignature <|> grammar.memberBody modifiers
  initialisation <|> member

end TemplateMessages.Script.Grammar

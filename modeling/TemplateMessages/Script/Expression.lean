import TemplateMessages.Script.Function

/-!
# Expressions

Operators are not told apart by their rank: however the operands of an
expression are grouped, they are visited from left to right.
-/

namespace TemplateMessages.Script.Grammar

open Reader

variable (grammar : Grammar)

/-! ## Primary expressions -/

/-- The arguments of a call behind the opening parenthesis.  A spread argument
counts as its expression. -/
def callArguments : Reader (List Expr) :=
  grammar.listTo ")" do
    let _ ← eat "..."
    let value ← grammar.assignment .free
    return [value]

def arrayItem : Reader (List Expr) := do
  if ← isAt "," then return []
  let _ ← eat "..."
  let value ← grammar.assignment .free
  return [value]

/-- The words in front of a method of an object. -/
def methodModifiers : List String := ["async", "get", "set"]

/-- A property of an object.  One with a default is a part of a pattern that is
assigned to. -/
def objectProperty : Reader (List Expr) := do
  if ← eat "..." then
    let value ← grammar.assignment .free
    return [value]
  let modifiers ← grammar.repeated do
    if ← isModifier methodModifiers then some <$> anyWord else return none
  let isMethod := (← eat "*") || !modifiers.isEmpty
  let isName := !(← peekWord).isEmpty
  let key ← grammar.propertyKey
  if isMethod || (← isAt "(") || (← isAtChar '<') then
    let parts ← within true (grammar.functionRest true)
    return key ++ parts
  else if ← eat ":" then
    let value ← grammar.assignment .free
    return key ++ [value]
  else if isName then grammar.initializer .free
  else failure

/-- Subscripts of an expression that is neither called nor in an optional
chain. -/
def plainSubscript (base : Expr) : Reader (Option Expr) := do
  if ← eat "." then
    if ← isAtChar '#' then
      privateName
      return some (.group [base])
    else
      let word ← anyWord
      return some (.member base word)
  else if ← eat "[" then
    let key ← grammar.expression .free
    punct "]"
    return some (.group [base, key])
  else if ← isAtChar '\u0060' then
    let parts ← grammar.template true
    return some (.group [base, parts])
  else if (← isAt "!") && !(← afterLineEnd) then
    take 1
    return some (.group [base])
  else return none

/-- What an expression is, as the subscripts behind it see it. -/
structure Base where
  expr : Expr
  /-- Whether it belongs to an optional chain. -/
  chained : Bool

/-- A call, or the same in an optional chain. -/
def applied (base : Base) (arguments : List Expr) (start : Nat) : Base :=
  if base.chained then ⟨.group (base.expr :: arguments), true⟩
  else ⟨.call base.expr arguments start, false⟩

/-- Type arguments behind an expression, when what follows shows that they are
some. -/
def callTypeArguments : Reader Unit := do
  grammar.typeArguments
  let next ← punctuator
  let ends := ["(", "\u0060", ")", "]", "\x7d", ",", ";", ":", ".", "?.", "=>"].contains next
  if !ends && !(← isAtEnd) && !(← afterLineEnd) then failure

/-- What follows the mark of an optional chain. -/
def chainLink (base : Base) : Reader Base := do
  if ← eat "(" then
    let arguments ← grammar.callArguments
    return ⟨.group (base.expr :: arguments), true⟩
  else if ← eat "[" then
    let key ← grammar.expression .free
    punct "]"
    return ⟨.group [base.expr, key], true⟩
  else if ← isAtChar '#' then
    privateName
    return ⟨.group [base.expr], true⟩
  else if ← isAtChar '<' then
    grammar.typeArguments
    punct "("
    let arguments ← grammar.callArguments
    return ⟨.group (base.expr :: arguments), true⟩
  else
    let _ ← anyWord
    return ⟨.group [base.expr], true⟩

/-- One subscript of an expression that starts on a line. -/
def subscript (start : Nat) (base : Base) : Reader (Option Base) := do
  if ← eat "(" then
    let arguments ← grammar.callArguments
    return some (applied base arguments start)
  else if ← eat "?." then some <$> grammar.chainLink base
  else if (← isAtChar '<') && (← canRead grammar.callTypeArguments) then
    grammar.typeArguments
    return some base
  else
    match ← grammar.plainSubscript base.expr with
    | none => return none
    | some expr =>
        return some (if base.chained then ⟨.group [expr], true⟩ else ⟨expr, false⟩)

/-- All subscripts of an expression. -/
def subscripts (start : Nat) : Nat → Base → Reader Expr
  | 0, base => pure base.expr
  | bound + 1, base => do
      match ← grammar.subscript start base with
      | some next => subscripts start bound next
      | none => return base.expr

/-- The subscripts of what is to be constructed, up to the arguments. -/
def constructed : Nat → Expr → Reader Expr
  | 0, base => pure base
  | bound + 1, base => do
      match ← grammar.plainSubscript base with
      | some next => constructed bound next
      | none => return base

/-- A class behind its word. -/
def classAfterWord (needsName : Bool) : Reader Expr := do
  let isName ← do
    let word ← peekWord
    pure (!word.isEmpty && !(["extends", "implements"].contains word))
  if isName then let _ ← identifier
  else if needsName then failure
  grammar.optionalTypeParameters
  let base ← if ← eatWord "extends" then
      let base ← grammar.operand
      if ← isAtChar '<' then grammar.typeArguments
      pure [base]
    else pure []
  if ← eatWord "implements" then
    grammar.type
    let _ ← grammar.repeated do
      if ← eat "," then some <$> grammar.type else return none
  punct "\x7b"
  let members ← within true do
    grammar.repeated do
      if (← isAt "\x7d") || (← isAtEnd) then return none
      else some <$> grammar.classMember
  punct "\x7d"
  return .group (members.flatten ++ base)

end TemplateMessages.Script.Grammar

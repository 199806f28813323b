import TemplateMessages.Script.Markup

/-!
# Operands, operators and arrow functions

An expression is first taken for an arrow function where it may start like one,
and for anything else when that fails.
-/

namespace TemplateMessages.Script.Grammar

open Reader

variable (grammar : Grammar)

/-! ## Operands -/

def parenthesised : Reader Expr := do
  punct "("
  let inner ← grammar.expression .free
  punct ")"
  return .paren inner

/-- What follows `super`: a property, which only a method has and which belongs
to no object here, or a call. -/
def superRest : Reader Expr := do
  if ← eat "." then
    if !(← inMethod) then failure
    let _ ← anyWord
    return .group []
  else if ← eat "[" then
    if !(← inMethod) then failure
    let key ← grammar.expression .free
    punct "]"
    return .group [key]
  else
    punct "("
    let arguments ← grammar.callArguments
    return .group arguments

/-- A loaded module, or what is known about the present one. -/
def importRest : Reader Expr := do
  if ← eat "." then
    keyword "meta"
    return .group []
  else
    punct "("
    let arguments ← grammar.callArguments
    return .group arguments

/-- An object that is constructed; its arguments may be missing. -/
def newRest : Reader Expr := do
  if ← eat "." then
    keyword "target"
    return .group []
  else
    let base ← grammar.head
    let callee ← grammar.constructed grammar.bound base
    if (← isAtChar '<') && (← canRead do
        grammar.typeArguments
        punct "(") then grammar.typeArguments
    let arguments ← if ← eat "(" then grammar.callArguments else pure []
    return .group (callee :: arguments)

/-- An operand that starts with a word. -/
def wordOperand (word : String) : Reader Expr := do
  if ← startsPair "async" "function" then
    keyword "async"
    keyword "function"
    grammar.functionAfterWord false true
  else
    let _ ← anyWord
    match word with
    | "function" => grammar.functionAfterWord false true
    | "class" => grammar.classAfterWord false
    | "super" => grammar.superRest
    | "import" => grammar.importRest
    | "new" => grammar.newRest
    | "null" => return .null
    | _ =>
        if ["this", "true", "false"].contains word then return .group []
        else if reservedWords.contains word then failure
        else return .name word

/-- An operand without its subscripts. -/
def primary : Reader Expr := do
  let text ← rest
  match text with
  | [] => failure
  | c :: _ =>
      if isWordStart c then grammar.wordOperand (wordAt text).1
      else if c == '(' then grammar.parenthesised
      else if c == '[' then
        take 1
        let items ← grammar.listTo "]" grammar.arrayItem
        return .group items
      else if c == '{' then
        take 1
        let properties ← grammar.listTo "\x7d" grammar.objectProperty
        return .group properties
      else if c == '"' || c == '\'' then string
      else if c == '\u0060' then grammar.template false
      else if c == '/' then pattern
      else if c == '<' then
        let element ← grammar.markup
        toToken
        return element
      else if c == '#' then
        privateName
        return .group []
      else number

/-- An operand with its subscripts. -/
def anyOperand : Reader Expr := do
  let start ← line
  let base ← grammar.primary
  grammar.subscripts start grammar.bound ⟨base, false⟩

/-! ## Operators -/

def signOperators : List String := ["!", "~", "+", "-", "++", "--"]

def wordOperators : List String := ["typeof", "void", "delete", "await"]

/-- Takes an operator in front of an operand. -/
def leadingOperator : Reader (Option Unit) := do
  if signOperators.contains (← punctuator) then
    let mark ← punctuator
    some <$> take mark.length
  else if wordOperators.contains (← peekWord) then
    let _ ← anyWord
    return some ()
  else return none

/-- An operand with the operators around it. -/
def unary : Reader Expr := do
  let operators ← grammar.repeated leadingOperator
  let inner ← grammar.operand
  let next ← punctuator
  let counted := ["++", "--"].contains next && !(← afterLineEnd)
  if counted then take next.length
  return if operators.isEmpty && !counted then inner else .group [inner]

def binaryOperators : List String :=
  [">>>", "===", "!==", "==", "!=", "<=", ">=", "&&", "||", "??", "<<", ">>", "**", "<", ">", "+",
    "-", "*", "/", "%", "&", "|", "^"]

/-- What follows an operand: an operator and another, or a type that is claimed
for it. -/
def binaryRest (place : Place) : Reader (Option (List Expr)) := do
  let mark ← punctuator
  if binaryOperators.contains mark then
    take mark.length
    let next ← grammar.unary
    return some [next]
  else
    let word ← peekWord
    if word == "instanceof" || (word == "in" && place.allowsIn) then
      let _ ← anyWord
      let next ← grammar.unary
      return some [next]
    else if (word == "as" || word == "satisfies") && !(← afterLineEnd) then
      let _ ← anyWord
      grammar.type
      return some []
    else return none

/-- Operands with operators between them. -/
def binary (place : Place) : Reader Expr := do
  let first ← grammar.unary
  let others ← grammar.repeated (grammar.binaryRest place)
  return if others.isEmpty then first else .group (first :: others.flatten)

def assignmentOperators : List String :=
  ["=", ">>>=", "**=", "<<=", ">>=", "&&=", "||=", "??=", "+=", "-=", "*=", "/=", "%=", "&=", "|=",
    "^="]

/-- A conditional, an assignment, or neither. -/
def conditional (place : Place) : Reader Expr := do
  let first ← grammar.binary place
  let mark ← punctuator
  if mark == "?" then
    take 1
    let middle ← grammar.assignment ⟨true, true⟩
    punct ":"
    let last ← grammar.assignment place
    return .group [first, middle, last]
  else if assignmentOperators.contains mark then
    take mark.length
    let value ← grammar.assignment place
    return .group [first, value]
  else return first

/-! ## Arrow functions -/

/-- An arrow and the body of its function. -/
def arrowRest (place : Place) : Reader (List Expr) := do
  if ← afterLineEnd then failure
  punct "=>"
  if ← isAt "\x7b" then grammar.block
  else
    let body ← grammar.assignment place
    return [body]

/-- An arrow function from its type parameters on. -/
def arrowSignature (place : Place) : Reader Expr := do
  grammar.optionalTypeParameters
  let inputs ← grammar.parameters
  if !place.inMiddle then grammar.annotation
  let body ← grammar.arrowRest place
  return .group (inputs ++ body)

/-- An arrow function of one variable. -/
def shortArrow (place : Place) : Reader Expr := do
  let _ ← identifier
  let body ← grammar.arrowRest place
  return .group body

def asyncArrow (place : Place) : Reader Expr := do
  keyword "async"
  if ← afterLineEnd then failure
  if (← isAt "(") || (← isAtChar '<') then grammar.arrowSignature place
  else grammar.shortArrow place

/-- An arrow function where an expression may start like one. -/
def arrowFunction (place : Place) : Reader Expr := do
  if ← isAt "(" then grammar.arrowSignature place
  else if (← peekWord) == "async" then
    grammar.asyncArrow place <|> grammar.shortArrow place
  else grammar.shortArrow place

/-- A value handed out by a generator. -/
def yielded (place : Place) : Reader Expr := do
  keyword "yield"
  let isDelegate ← eat "*"
  let ends := [")", "]", "\x7d", ",", ";", ":"].contains (← punctuator)
  if !isDelegate && (ends || (← isAtEnd) || (← afterLineEnd)) then return .group []
  else
    let value ← grammar.assignment place
    return .group [value]

/-- An expression without commas. -/
def anyAssignment (place : Place) : Reader Expr := do
  if (← peekWord) == "yield" then grammar.yielded place
  else if ← isAtChar '<' then
    grammar.conditional place <|> grammar.arrowSignature place
  else grammar.arrowFunction place <|> grammar.conditional place

end TemplateMessages.Script.Grammar

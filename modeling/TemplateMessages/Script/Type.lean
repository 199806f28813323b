import TemplateMessages.Script.Grammar

/-!
# Types

A type is read to find its end.  What stands between brackets in it is passed
over.
-/

namespace TemplateMessages.Script.Grammar

open Reader

variable (grammar : Grammar)

/-- Types between angle brackets. -/
def typeArguments : Reader Unit := do
  char '<'
  let _ ← commaList (do
    if ← isAtChar '>' then
      take 1
      return true
    else return false) (do
      grammar.type
      return [()]) grammar.bound

/-- Further names behind points, and type arguments. -/
def qualifiers : Reader Unit := do
  let _ ← grammar.repeated do
    if ← eat "." then some <$> anyWord else return none
  if (← isAtChar '<') && !(← afterLineEnd) then grammar.typeArguments

/-- The words in front of a type that belong to it. -/
def typeOperators : List String := ["keyof", "unique", "readonly", "asserts"]

/-- A type parameter: modifiers, a name, a constraint and a default. -/
def typeParameter : Reader Unit := do
  let _ ← grammar.repeated do
    let word ← peekWord
    if ["const", "in", "out"].contains word && (← canRead do
        let _ ← anyWord
        anyWord) then some <$> anyWord
    else return none
  let _ ← identifier
  if ← eatWord "extends" then grammar.type
  if ← eat "=" then grammar.type

def typeParameters : Reader Unit := do
  char '<'
  let _ ← commaList (do
    if ← isAtChar '>' then
      take 1
      return true
    else return false) (do
      grammar.typeParameter
      return [()]) grammar.bound

def optionalTypeParameters : Reader Unit := do
  if ← isAtChar '<' then grammar.typeParameters

/-- The parameters and the result of a function type. -/
def functionType : Reader Unit := do
  grammar.optionalTypeParameters
  if !(← isAtChar '(') then failure
  grammar.bracketed
  punct "=>"
  grammar.type

/-- A type that starts with a word. -/
def wordType (word : String) : Reader Unit := do
  let _ ← anyWord
  if word == "new" then grammar.functionType
  else if word == "abstract" && (← peekWord) == "new" then
    let _ ← anyWord
    grammar.functionType
  else if word == "typeof" then
    if ← eatWord "import" then grammar.bracketed else let _ ← anyWord
    grammar.qualifiers
  else if word == "import" then
    grammar.bracketed
    grammar.qualifiers
  else
    grammar.qualifiers
    if (← peekWord) == "is" && !(← afterLineEnd) then
      let _ ← anyWord
      grammar.type

def simpleType : Reader Unit := do
  let text ← rest
  match text with
  | [] => failure
  | c :: _ =>
      if c == '(' then
        grammar.functionType <|> grammar.bracketed
      else if c == '<' then grammar.functionType
      else if c == '[' || c == '{' then grammar.bracketed
      else if c == '"' || c == '\'' then let _ ← string
      else if c == '\u0060' then let _ ← grammar.template false
      else if c == '-' then
        take 1
        let _ ← number
      else if isWordStart c then grammar.wordType (wordAt text).1
      else let _ ← number

/-- Whether a word is an operator of the type behind it. -/
def isTypeOperator (word : String) : Reader Bool :=
  if typeOperators.contains word then
    canRead do
      let _ ← anyWord
      if ← afterLineEnd then failure
      match ← rest with
      | c :: _ =>
          if isWordStart c || ['(', '[', '{', '"', '\''].contains c then pure () else failure
      | [] => failure
  else pure false

/-- A type with the operators in front of it and the brackets behind it. -/
def operandType : Reader Unit := do
  let _ ← grammar.repeated do
    let word ← peekWord
    if ← isTypeOperator word then some <$> anyWord else return none
  if (← peekWord) == "infer" && (← canRead do
      let _ ← anyWord
      identifier) then
    let _ ← anyWord
    let _ ← identifier
    if ← eatWord "extends" then grammar.simpleType
  else grammar.simpleType
  let _ ← grammar.repeated do
    if (← isAtChar '[') && !(← afterLineEnd) then some <$> grammar.bracketed else return none

/-- Takes a mark between the members of a union or an intersection. -/
def eatTypeMark : Reader Bool := do
  if ← eat "|" then return true else eat "&"

def unionType : Reader Unit := do
  let _ ← eatTypeMark
  grammar.operandType
  let _ ← grammar.repeated do
    if ← eatTypeMark then some <$> grammar.operandType else return none

/-- A type, which may depend on whether another extends a third. -/
def anyType : Reader Unit := do
  grammar.unionType
  if (← peekWord) == "extends" && !(← afterLineEnd) then
    let _ ← anyWord
    grammar.unionType
    punct "?"
    grammar.type
    punct ":"
    grammar.type

/-- A type behind a colon, if there is one. -/
def annotation : Reader Unit := do
  if ← eat ":" then grammar.type

end TemplateMessages.Script.Grammar

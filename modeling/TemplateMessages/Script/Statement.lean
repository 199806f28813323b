import TemplateMessages.Script.Operator

/-!
# Statements

A statement yields its expressions in the order in which they are visited: that
of the text, but for a loop that tests behind its body, whose test comes first.
-/

namespace TemplateMessages.Script.Grammar

open Reader

variable (grammar : Grammar)

/-- An expression in parentheses that belongs to a statement. -/
def inParentheses : Reader Expr := do
  punct "("
  let inner ← grammar.expression .free
  punct ")"
  return inner

/-! ## Declarations -/

def declarator (place : Place) : Reader (List Expr) := do
  let inner ← grammar.binding
  if !(← afterLineEnd) then let _ ← eat "!"
  grammar.annotation
  let value ← grammar.initializer place
  return inner ++ value

def declarators (place : Place) : Reader (List Expr) := do
  let first ← grammar.declarator place
  let others ← grammar.repeated do
    if ← eat "," then some <$> grammar.declarator place else return none
  return first ++ others.flatten

/-- Whether a declaration of variables starts here. -/
def startsVariables : Reader Bool := do
  let word ← peekWord
  if word == "var" || word == "const" then return true
  else if word == "let" then
    canRead do
      let _ ← anyWord
      if !(← startsBinding) || ["in", "of", "instanceof"].contains (← peekWord) then failure
  else return false

def enumMember : Reader (List Expr) := do
  let key ← grammar.propertyKey
  let value ← grammar.initializer .free
  return key ++ value

def enumRest : Reader Expr := do
  let _ ← identifier
  punct "\x7b"
  let members ← grammar.listTo "\x7d" grammar.enumMember
  return .group members

def variableDeclaration : Reader Expr := do
  let word ← anyWord
  if word == "const" && (← eatWord "enum") then grammar.enumRest
  else
    let parts ← grammar.declarators .free
    statementEnd
    return .group parts

def interfaceRest : Reader Expr := do
  let _ ← identifier
  grammar.optionalTypeParameters
  if ← eatWord "extends" then
    grammar.type
    let _ ← grammar.repeated do
      if ← eat "," then some <$> grammar.type else return none
  if !(← isAt "\x7b") then failure
  grammar.bracketed
  return .group []

def aliasRest : Reader Expr := do
  let _ ← identifier
  grammar.optionalTypeParameters
  punct "="
  grammar.type
  statementEnd
  return .group []

/-- Whether a certain word stands here and a name follows it on its line. -/
def startsNamed (word : String) : Reader Bool :=
  canRead do
    keyword word
    if ← afterLineEnd then failure
    identifier

/-! ## Modules -/

/-- The attributes of a module that is loaded. -/
def moduleAttributes : Reader Unit := do
  if ["with", "assert"].contains (← peekWord) && !(← afterLineEnd) then
    let _ ← anyWord
    grammar.bracketed

def moduleName : Reader Unit := do
  let _ ← string
  grammar.moduleAttributes
  statementEnd

/-- The name of something in a module. -/
def moduleItemName : Reader Unit := do
  match ← optional string with
  | some _ => return
  | none => let _ ← anyWord

/-- A name of a module and, behind `as`, another one for it. -/
def renamedItem : Reader Unit := do
  moduleItemName
  if ← eatWord "as" then moduleItemName
  if !(← isAt ",") && !(← isAt "\x7d") then failure

def moduleItem : Reader (List Unit) := do
  let typeItem : Reader Unit := do
    keyword "type"
    renamedItem
  renamedItem <|> typeItem
  return []

/-- Names in braces. -/
def moduleItems : Reader Unit := do
  punct "\x7b"
  let _ ← grammar.listTo "\x7d" moduleItem

/-- A whole module under a name, or names of it. -/
def importedItems : Reader Unit := do
  if ← eat "*" then
    keyword "as"
    let _ ← identifier
  else grammar.moduleItems

/-- Names from a module. -/
def importNames : Reader Unit := do
  if (← isAt "*") || (← isAt "\x7b") then grammar.importedItems
  else
    let _ ← identifier
    if ← eat "," then grammar.importedItems
  keyword "from"
  grammar.moduleName

/-- A name for a module or for a part of a namespace. -/
def importAlias : Reader Expr := do
  let _ ← identifier
  punct "="
  let value ← grammar.operand
  statementEnd
  return .group [value]

/-- An import behind its word. -/
def importDeclaration : Reader Expr := do
  let names : Reader Expr := do
    grammar.moduleName <|> grammar.importNames
    return .group []
  let typeNames : Reader Expr := do
    keyword "type"
    grammar.importNames
    return .group []
  let typeAlias : Reader Expr := do
    keyword "type"
    grammar.importAlias
  names <|> typeNames <|> grammar.importAlias <|> typeAlias

def exportDefault : Reader Expr := do
  let word ← peekWord
  if word == "function" then
    let _ ← anyWord
    grammar.functionAfterWord false false
  else if ← startsPair "async" "function" then
    let _ ← anyWord
    let _ ← anyWord
    grammar.functionAfterWord false false
  else if word == "class" then
    let _ ← anyWord
    grammar.classAfterWord false
  else if ← startsPair "abstract" "class" then
    let _ ← anyWord
    let _ ← anyWord
    grammar.classAfterWord false
  else if ← startsNamed "interface" then
    let _ ← anyWord
    grammar.interfaceRest
  else
    let value ← grammar.assignment .free
    statementEnd
    return .group [value]

/-- Names that are exported, of this module or of another. -/
def exportNames : Reader Expr := do
  if ← eat "*" then
    if ← eatWord "as" then
      match ← optional string with
      | some _ => pure ()
      | none => let _ ← anyWord
    keyword "from"
    grammar.moduleName
  else
    grammar.moduleItems
    if ← eatWord "from" then grammar.moduleName else statementEnd
  return .group []

/-- The words that a declaration starts with. -/
def declarationWords : List String :=
  ["var", "let", "const", "function", "class", "enum", "async", "abstract", "interface", "type",
    "namespace", "module", "declare"]

/-- An export behind its word. -/
def exportDeclaration : Reader Expr := do
  if ← eatWord "default" then grammar.exportDefault
  else if ← eatWord "import" then grammar.importAlias
  else if ← eat "=" then
    let value ← grammar.expression .free
    statementEnd
    return .group [value]
  else if (← isAt "*") || (← isAt "\x7b") then grammar.exportNames
  else
    let typeNames : Reader Expr := do
      keyword "type"
      grammar.exportNames
    let globalName : Reader Expr := do
      keyword "as"
      keyword "namespace"
      let _ ← identifier
      statementEnd
      return .group []
    let declaration : Reader Expr := do
      if !declarationWords.contains (← peekWord) then failure
      grammar.statement
    typeNames <|> globalName <|> declaration

/-- A statement of a module, which may import or export. -/
def moduleStatement : Reader Expr := do
  if ← eatWord "export" then grammar.exportDeclaration
  else if (← peekWord) == "import" then
    let declaration : Reader Expr := do
      let _ ← anyWord
      grammar.importDeclaration
    declaration <|> grammar.statement
  else grammar.statement

/-- The statements of a namespace up to its closing brace. -/
def namespaceBody : Reader (List Expr) := do
  punct "\x7b"
  let found ← grammar.repeated do
    if (← isAt "\x7d") || (← isAtEnd) then return none
    else some <$> grammar.moduleStatement
  punct "\x7d"
  return found

/-- A namespace, or a module that is declared under its name. -/
def namespaceRest : Reader Expr := do
  match ← optional string with
  | some _ => pure ()
  | none =>
      let _ ← identifier
      let _ ← grammar.repeated do
        if ← eat "." then some <$> identifier else return none
  if ← isAt "\x7b" then
    let body ← grammar.namespaceBody
    return .group body
  else
    statementEnd
    return .group []

/-! ## Control flow -/

def ifRest : Reader Expr := do
  let test ← grammar.inParentheses
  let first ← grammar.statement
  if ← eatWord "else" then
    let second ← grammar.statement
    return .group [test, first, second]
  else return .group [test, first]

/-- What a loop declares or starts with. -/
def loopStart : Reader (List Expr) := do
  if ← isAt ";" then return []
  else if ← startsVariables then
    let _ ← anyWord
    grammar.declarators ⟨false, false⟩
  else
    let value ← grammar.expression ⟨false, false⟩
    return [value]

/-- An expression that may be left out in front of a mark. -/
def optionalBefore (mark : String) : Reader (List Expr) := do
  if ← eat mark then return []
  else
    let value ← grammar.expression .free
    punct mark
    return [value]

def forRest : Reader Expr := do
  let _ ← eatWord "await"
  punct "("
  let start ← grammar.loopStart
  let head ←
    if ← eatWord "of" then
      let value ← grammar.assignment .free
      punct ")"
      pure [value]
    else if ← eatWord "in" then
      let value ← grammar.expression .free
      punct ")"
      pure [value]
    else
      punct ";"
      let test ← grammar.optionalBefore ";"
      let update ← grammar.optionalBefore ")"
      pure (test ++ update)
  let body ← grammar.statement
  return .group (start ++ head ++ [body])

def whileRest : Reader Expr := do
  let test ← grammar.inParentheses
  let body ← grammar.statement
  return .group [test, body]

def doRest : Reader Expr := do
  let body ← grammar.statement
  keyword "while"
  let test ← grammar.inParentheses
  let _ ← eat ";"
  return .group [test, body]

/-- A jump to a label that may be left out. -/
def jumpRest : Reader Expr := do
  if !(← afterLineEnd) then let _ ← optional identifier
  statementEnd
  return .group []

def returnRest : Reader Expr := do
  if (← isAt ";") || (← isAt "\x7d") || (← isAtEnd) || (← afterLineEnd) then
    statementEnd
    return .group []
  else
    let value ← grammar.expression .free
    statementEnd
    return .group [value]

def throwRest : Reader Expr := do
  if ← afterLineEnd then failure
  let value ← grammar.expression .free
  statementEnd
  return .group [value]

/-- A case of a switch with its statements. -/
def switchCase : Reader (Option (List Expr)) := do
  if ← eat "\x7d" then return none
  let label ← if ← eatWord "default" then pure [] else do
    keyword "case"
    let value ← grammar.expression .free
    pure [value]
  punct ":"
  let body ← grammar.repeated do
    if (← isAt "\x7d") || (← isAtEnd) || ["case", "default"].contains (← peekWord) then
      return none
    else some <$> grammar.statement
  return some (label ++ body)

def switchRest : Reader Expr := do
  let value ← grammar.inParentheses
  punct "\x7b"
  let cases ← grammar.repeated grammar.switchCase
  return .group (value :: cases.flatten)

def tryRest : Reader Expr := do
  let body ← grammar.block
  let handler ← if ← eatWord "catch" then do
      let error ← if ← eat "(" then do
          let inner ← grammar.binding
          grammar.annotation
          punct ")"
          pure inner
        else pure []
      let handler ← grammar.block
      pure (some (error ++ handler))
    else pure none
  let cleanup ← if ← eatWord "finally" then some <$> grammar.block else pure none
  if handler.isNone && cleanup.isNone then failure
  return .group (body ++ handler.getD [] ++ cleanup.getD [])

def withRest : Reader Expr := do
  let object ← grammar.inParentheses
  let body ← grammar.statement
  return .group [object, body]

/-- A statement behind its label. -/
def labelled : Reader Expr := do
  let _ ← identifier
  punct ":"
  grammar.statement

def expressionStatement : Reader Expr := do
  let value ← grammar.expression .free
  statementEnd
  return value

/-! ## All statements -/

/-- The reader of a statement behind the reserved word that starts it. -/
def reservedStatement? (word : String) : Option (Reader Expr) :=
  match word with
  | "function" => some (grammar.functionAfterWord true false)
  | "class" => some (grammar.classAfterWord true)
  | "if" => some grammar.ifRest
  | "for" => some grammar.forRest
  | "while" => some grammar.whileRest
  | "do" => some grammar.doRest
  | "break" => some jumpRest
  | "continue" => some jumpRest
  | "return" => some grammar.returnRest
  | "switch" => some grammar.switchRest
  | "throw" => some grammar.throwRest
  | "try" => some grammar.tryRest
  | "with" => some grammar.withRest
  | "enum" => some grammar.enumRest
  | "debugger" => some do
      statementEnd
      return .group []
  | _ => none

/-- A declaration behind a word that can also be a name. -/
def contextualStatement : Reader Expr := do
  let word ← anyWord
  if ← afterLineEnd then failure
  match word with
  | "async" => do
      keyword "function"
      grammar.functionAfterWord true false
  | "abstract" => do
      keyword "class"
      grammar.classAfterWord true
  | "interface" => grammar.interfaceRest
  | "type" => grammar.aliasRest
  | "namespace" => grammar.namespaceRest
  | "module" => grammar.namespaceRest
  | "declare" => do
      if (← peekWord).isEmpty then failure
      if ← eatWord "global" then
        let body ← grammar.namespaceBody
        return .group body
      else grammar.statement
  | _ => failure

def contextualWords : List String :=
  ["async", "abstract", "interface", "type", "namespace", "module", "declare"]

def anyStatement : Reader Expr := do
  if ← eat ";" then return .group []
  if ← isAt "\x7b" then
    let body ← grammar.block
    return .group body
  if ← startsVariables then return ← grammar.variableDeclaration
  let word ← peekWord
  match grammar.reservedStatement? word with
  | some statement =>
      let _ ← anyWord
      statement
  | none =>
      if ← startsPair "async" "function" then grammar.contextualStatement
      else if contextualWords.contains word then
        grammar.contextualStatement <|> grammar.labelled <|> grammar.expressionStatement
      else grammar.labelled <|> grammar.expressionStatement

/-- The grammar of a script of less than `bound` characters whose constructs are
nested less than so many levels deep. -/
def upTo (bound : Nat) : Nat → Grammar
  | 0 => empty bound
  | depth + 1 =>
      { bound := bound
        assignment := fun place cursor => (upTo bound depth).anyAssignment place cursor
        head := fun cursor => (upTo bound depth).primary cursor
        operand := fun cursor => (upTo bound depth).anyOperand cursor
        binding := fun cursor => (upTo bound depth).anyBinding cursor
        statement := fun cursor => (upTo bound depth).anyStatement cursor
        type := fun cursor => (upTo bound depth).anyType cursor
        markup := fun cursor => (upTo bound depth).element cursor
        bracketed := fun cursor => (upTo bound depth).brackets cursor }

/-- All statements of a script. -/
def program : Reader (List Expr) := do
  let found ← grammar.repeated do
    if ← isAtEnd then return none else some <$> grammar.moduleStatement
  if !(← isAtEnd) then failure
  return found

end TemplateMessages.Script.Grammar

namespace TemplateMessages.Script

/-- The statements of a script.  Every level of nesting takes a character, but
for a few that stand on the same one. -/
def read? (text : String) : Option (List Expr) :=
  let bound := 8 * text.length + 16
  ((Grammar.upTo bound bound).program.run (Cursor.ofText text)).map (·.1)

end TemplateMessages.Script

import TemplateMessages.Proofs.TokenCursors
import TemplateMessages.Template.Node.Parser

/-!
# Parsing in loops

The parser as a cursor that is moved over the tokens.  Lists, filters, nodes and
sections are read in loops: one turn reads one more of them or finds that there
are none, and nothing tells beforehand how many turns there will be.  The bound
counts the turns of each loop and how deep expressions and tags lie in each
other; when it is used up there is no answer, not even an error.  So an answer
tells that the parser comes to an end.
-/

namespace TemplateMessages.Template

/-- From a cursor, an answer and the cursor that is left; an error leaves one too. -/
abbrev Parse (ε α : Type) := ExceptT ε (StateT TokenCursor Option) α

/-- How a turn of a loop ends: with a state for the next one, or with what the loop yields. -/
inductive Turn (σ α : Type) where
  | again (state : σ)
  | done (value : α)

namespace Parse

variable {ε σ α : Type}

def exhausted : Parse ε α := fun _ => none

def current : Parse ε Token := do
  return (← get).current

def look (offset : Nat) : Parse ε Token := do
  return (← get).look offset

/-- Takes the current token. -/
def next : Parse ε Token := do
  let cursor ← get
  set cursor.next
  return cursor.current

def expect (expected : TokenKind) : Parse SyntaxError Token := do
  let found ← current
  if expected.fits found.kind then next
  else throw (.onLine found.line (.expectedToken found.kind expected))

def expectName : Parse SyntaxError String := do
  let found ← current
  match found.name? with
  | some name => do
      let _ ← next
      return name
  | none => throw (.onLine found.line (.expectedName found.kind))

def loop (turn : σ → Parse ε (Turn σ α)) : Nat → σ → Parse ε α
  | 0, _ => exhausted
  | bound + 1, state => do
      match ← turn state with
      | .again state => loop turn bound state
      | .done value => return value

/-! ## Expressions -/

section Expressions

variable (expr : Parse SyntaxError Expr)

/-- Whether another element stands in front of the closing mark.  Elements have commas between
them, and some lists one behind the last. -/
def another (close : Char) (isFirst trailing : Bool) : Parse SyntaxError Bool := do
  if (← current).isPunct close then return false
  else if isFirst then return true
  else do
    let _ ← expect (.punct ',')
    return !(trailing && (← current).isPunct close)

def elementTurn (close : Char) (trailing : Bool) (element : Parse SyntaxError α)
    (found : List α) : Parse SyntaxError (Turn (List α) (List α)) := do
  if ← another close found.isEmpty trailing then do
    let more ← element
    return .again (found ++ [more])
  else return .done found

/-- The elements of a list up to its closing mark. -/
def elements (close : Char) (trailing : Bool) (element : Parse SyntaxError α) (bound : Nat) :
    Parse SyntaxError (List α) := do
  let found ← loop (elementTurn close trailing element) bound []
  let _ ← expect (.punct close)
  return found

/-- An expression up to the parenthesis that closes it. -/
def group : Parse SyntaxError Expr := do
  let inner ← expr
  let _ ← expect (.punct ')')
  return inner

def key : Parse SyntaxError Expr := do
  let token ← current
  match token.kind with
  | .str value => do
      let _ ← next
      return .string value
  | .name word => do
      let _ ← next
      return .string word
  | .number value => do
      let _ ← next
      return .string value.text
  | .punct '(' => do
      let _ ← next
      group expr
  | found => throw (.onLine token.line (.invalidKey found))

def entry : Parse SyntaxError (Expr × Expr) := do
  let key ← key expr
  let _ ← expect (.punct ':')
  let value ← expr
  return (key, value)

def argument : Parse SyntaxError (Argument Expr) := do
  let first ← current
  let second ← look 1
  if first.name?.isSome && (second.isPunct '=' || second.isPunct ':') then do
    let word ← expectName
    let _ ← next
    let value ← expr
    return .named word value
  else do
    let value ← expr
    return .positional value

def argumentList (bound : Nat) : Parse SyntaxError (List (Argument Expr)) := do
  let _ ← expect (.punct '(')
  elements ')' false (argument expr) bound

def filterTurn (bound : Nat) (subject : Expr) : Parse SyntaxError (Turn Expr Expr) := do
  if (← current).isPunct '|' then do
    let bar ← next
    let word ← expectName
    let opening ← current
    let arguments ← if opening.isPunct '(' then argumentList expr bound else pure []
    return .again (.filter subject word arguments bar.line)
  else return .done subject

def primary (bound : Nat) : Parse SyntaxError Expr := do
  let token ← next
  match token.kind with
  | .name word => return .ofWord word
  | .number value => return .constant (.number value)
  | .str value => return .string value
  | .punct '[' => do
      let items ← elements ']' true expr bound
      return .array items
  | .punct '{' => do
      let entries ← elements '}' true (entry expr) bound
      return .map entries
  | .punct '(' => group expr
  | _ => throw (.onLine token.line (.unexpectedToken token.kind))

end Expressions

def expression : Nat → Parse SyntaxError Expr
  | 0 => exhausted
  | bound + 1 => do
      let subject ← primary (expression bound) bound
      loop (filterTurn (expression bound) bound) bound subject

/-! ## Nodes -/

/-- A part of the parser of nodes that only reads tokens and expressions. -/
def reading (parser : Parse SyntaxError α) : Parse TemplateError α :=
  ExceptT.adapt .malformed parser

section Nodes

variable (expr : Parse SyntaxError Expr)

def setBlock (line : Nat) : Parse SyntaxError Node := do
  let name ← expectName
  let _ ← expect (.punct '=')
  let value ← expr
  let _ ← expect .blockEnd
  return .set name value line

def defaultDomainBlock (line : Nat) : Parse SyntaxError Node := do
  let domain ← expr
  let _ ← expect .blockEnd
  return .defaultDomain domain line

def clause (word : String) : Parse TemplateError (Option Expr) := do
  if (← current).isName word then do
    let _ ← next
    let value ← reading expr
    return some value
  else return none

/-- The clauses of a trans tag, and the end of its opening block. -/
def clauses : Parse TemplateError (Option Expr × Option Expr × Option Expr) := do
  let count ← clause expr "count"
  let vars ← clause expr "with"
  let domain ← clause expr "from"
  let found ← current
  if found.isName "into" then throw (.malformed (.onLine found.line .intoClause))
  else if found.isBlockEnd then do
    let _ ← reading (expect .blockEnd)
    return (count, vars, domain)
  else throw (.malformed (.onLine found.line .unexpectedClause))

/-- The section that a word opens. -/
def sectionOf? (token : Token) : Option Section :=
  match token.name? with
  | some "notes" => some .notes
  | some "context" => some .context
  | _ => none

variable (part : Parse TemplateError Node)

def sectionText (line : Nat) (tag : Section) : Parse TemplateError String := do
  let _ ← reading (expect .blockEnd)
  let body ← part
  match body.literal? with
  | some content => return content
  | none => throw (.malformed (.onLine line (.sectionNotText tag)))

def sectionTurn (line : Nat) (sections : Node.Sections) :
    Parse TemplateError (Turn Node.Sections Node.Sections) := do
  if (← current).isName "endtrans" then return .done sections
  else do
    let token ← next
    match sectionOf? token with
    | none => throw (.malformed (.onLine token.line (.unexpectedToken token.kind)))
    | some tag =>
        if (sections.get? tag).isSome then
          throw (.malformed (.onLine token.line (.repeatedSection tag)))
        else do
          let content ← sectionText part line tag
          return .again (sections.put tag (Text.trim content))

def transBlock (bound line : Nat) : Parse TemplateError Node := do
  let (count, vars, domain) ← clauses expr
  let body ← part
  match body.literal? with
  | none => throw (.malformed (.onLine body.line .messageNotText))
  | some content => do
      let sections ← loop (sectionTurn part line) bound ⟨none, none⟩
      let _ ← next
      let _ ← reading (expect .blockEnd)
      let (message, plural) ← ExceptT.mk (pure (Node.messageTexts content count.isSome))
      return .trans ⟨message, plural, domain, count, vars, sections.notes, sections.context, line⟩

def block (bound : Nat) (tag : BlockTag) (line : Nat) : Parse TemplateError Node :=
  match tag with
  | .set => reading (setBlock expr line)
  | .defaultDomain => reading (defaultDomainBlock expr line)
  | .trans => transBlock expr part bound line

def nodeTurn (tags : List BlockTag) (inside : Bool) (bound : Nat) (nodes : List Node) :
    Parse TemplateError (Turn (List Node) (List Node)) := do
  let token ← current
  match token.kind with
  | .text data => do
      let _ ← next
      return .again (nodes ++ [.text data token.line])
  | .varStart => do
      let _ ← next
      let value ← reading expr
      let _ ← reading (expect .varEnd)
      return .again (nodes ++ [.print value token.line])
  | .blockStart => do
      let _ ← next
      let name ← current
      match name.name? with
      | none => throw (.malformed (.onLine name.line .missingTagName))
      | some word =>
          if inside && Node.partEnds.contains word then return .done nodes
          else
            match tags.find? fun tag => tag.name == word with
            | none =>
                throw (.malformed (.onLine name.line
                  (if inside then .unexpectedTag word else .unknownTag word)))
            | some tag => do
                let _ ← next
                let node ← block expr part bound tag name.line
                return .again (nodes ++ [node])
  | .eof =>
      if inside then throw (.malformed (.onLine token.line .unexpectedEnd))
      else return .done nodes
  | _ => throw (.malformed (.onLine token.line (.unexpectedToken token.kind)))

end Nodes

/-- The nodes of a template, or of a part of a trans tag up to the name of the block tag that ends
it. -/
def nodes (tags : List BlockTag) : Nat → Bool → Parse TemplateError Node
  | 0, _ => exhausted
  | bound + 1, inside => do
      let first ← current
      let found ← loop (nodeTurn (expression bound) (nodes tags bound true) tags inside bound)
        (bound + 1) []
      return .ofNodes found first.line

end Parse

end TemplateMessages.Template

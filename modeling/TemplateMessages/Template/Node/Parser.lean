import TemplateMessages.Template.Error
import TemplateMessages.Template.Expr.Parser
import TemplateMessages.Template.Node

/-!
# Reading nodes

Nodes are read up to the end of the template, or inside a trans tag up to the
block tag that starts its next part or ends it.  Only the block tags that are
registered are known.  As with expressions the readers take a recursion bound,
and every turn of the recursion consumes a token.
-/

namespace TemplateMessages.Template

/-- The block tags that start a node. -/
inductive BlockTag where
  | set
  | trans
  | defaultDomain
deriving DecidableEq, Repr

def BlockTag.name : BlockTag → String
  | .set => "set"
  | .trans => "trans"
  | .defaultDomain => "trans_default_domain"

namespace Node

/-- The block tags that end a part of a trans tag. -/
def partEnds : List String := ["context", "notes", "endtrans"]

/-- Reads `word` and an expression, or nothing when the stream does not stand on
`word`. -/
def readClause (word : String) (stream : TokenStream) :
    Except TemplateError (Option Expr × TokenStream) :=
  if stream.current.isName word then do
    let (expr, stream) ← reading (parseExpression stream.advance)
    return (some expr, stream)
  else .ok (none, stream)

/-- The clauses of a trans tag up to the end of its opening block. -/
def readClauses (stream : TokenStream) :
    Except TemplateError ((Option Expr × Option Expr × Option Expr) × TokenStream) := do
  let (count, stream) ← readClause "count" stream
  let (vars, stream) ← readClause "with" stream
  let (domain, stream) ← readClause "from" stream
  let found := stream.current
  if found.isName "into" then throw (.malformed (.onLine found.line .intoClause))
  if !found.isBlockEnd then throw (.malformed (.onLine found.line .unexpectedClause))
  return ((count, vars, domain), stream.advance)

def readSet (line : Nat) (stream : TokenStream) : Except SyntaxError (Node × TokenStream) := do
  let (name, stream) ← stream.expectName
  let stream ← stream.expectPunct '='
  let (value, stream) ← parseExpression stream
  let (_, stream) ← stream.expect .blockEnd
  return (.set name value line, stream)

def readDefaultDomain (line : Nat) (stream : TokenStream) :
    Except SyntaxError (Node × TokenStream) := do
  let (domain, stream) ← parseExpression stream
  let (_, stream) ← stream.expect .blockEnd
  return (.defaultDomain domain line, stream)

/-- The section that the current token opens. -/
def sectionAt? (stream : TokenStream) : Option Section :=
  match stream.current.name? with
  | some "notes" => some .notes
  | some "context" => some .context
  | _ => none

/-- The texts of the sections of a trans tag read so far. -/
structure Sections where
  notes : Option String := none
  context : Option String := none
deriving DecidableEq, Repr

def Sections.get? (sections : Sections) : Section → Option String
  | .notes => sections.notes
  | .context => sections.context

def Sections.put (sections : Sections) (tag : Section) (text : String) : Sections :=
  match tag with
  | .notes => ⟨some text, sections.context⟩
  | .context => ⟨sections.notes, some text⟩

/-- The message and the plural of a trans tag: with a count, the two
alternatives of the text. -/
def messageTexts (text : String) (counted : Bool) :
    Except TemplateError (String × Option String) :=
  if counted then do
    let (singular, plural) ← (Plural.split text).mapError .plural
    return (Text.collapseBlanks singular, some (Text.collapseBlanks plural))
  else .ok (Text.collapseBlanks text, none)

mutual

/-- The nodes in front of the end of the template, or inside a trans tag in
front of the name of the block tag that ends the part. -/
def readNodes (tags : List BlockTag) (inside : Bool) :
    Nat → TokenStream → Except TemplateError (List Node × TokenStream)
  | 0, stream => .error (.malformed stream.unexpected)
  | bound + 1, stream =>
      let token := stream.current
      match token.kind with
      | .text data => do
          let (nodes, stream) ← readNodes tags inside bound stream.advance
          return (.text data token.line :: nodes, stream)
      | .varStart => do
          let (expr, stream) ← reading (parseExpression stream.advance)
          let (_, stream) ← reading (stream.expect .varEnd)
          let (nodes, stream) ← readNodes tags inside bound stream
          return (.print expr token.line :: nodes, stream)
      | .blockStart =>
          let stream := stream.advance
          let line := stream.current.line
          match stream.current.name? with
          | none => .error (.malformed (.onLine line .missingTagName))
          | some name =>
              if inside && partEnds.contains name then .ok ([], stream)
              else
                match tags.find? fun tag => tag.name == name with
                | none =>
                    .error (.malformed (.onLine line
                      (if inside then .unexpectedTag name else .unknownTag name)))
                | some tag => do
                    let (node, stream) ← readTag tags tag line bound stream.advance
                    let (nodes, stream) ← readNodes tags inside bound stream
                    return (node :: nodes, stream)
      | .eof =>
          if inside then .error (.malformed (.onLine token.line .unexpectedEnd))
          else .ok ([], stream)
      | _ => .error (.malformed stream.unexpected)

/-- One block tag, behind its name. -/
def readTag (tags : List BlockTag) (tag : BlockTag) (line : Nat) :
    Nat → TokenStream → Except TemplateError (Node × TokenStream)
  | 0, stream => .error (.malformed stream.unexpected)
  | bound + 1, stream =>
      match tag with
      | .set => reading (readSet line stream)
      | .defaultDomain => reading (readDefaultDomain line stream)
      | .trans => do
          let ((count, vars, domain), stream) ← readClauses stream
          let bodyLine := stream.current.line
          let (nodes, stream) ← readNodes tags true bound stream
          let body := Node.ofNodes nodes bodyLine
          let some content := body.literal?
            | throw (.malformed (.onLine body.line .messageNotText))
          let (sections, stream) ← readSections tags line ⟨none, none⟩ bound stream
          let (_, stream) ← reading (stream.advance.expect .blockEnd)
          let (message, plural) ← messageTexts content count.isSome
          return (.trans ⟨message, plural, domain, count, vars, sections.notes,
            sections.context, line⟩, stream)

/-- The sections of a trans tag up to the name that closes it. -/
def readSections (tags : List BlockTag) (line : Nat) (sections : Sections) :
    Nat → TokenStream → Except TemplateError (Sections × TokenStream)
  | 0, stream => .error (.malformed stream.unexpected)
  | bound + 1, stream =>
      if stream.current.isName "endtrans" then .ok (sections, stream)
      else
        match sectionAt? stream with
        | none => .error (.malformed stream.unexpected)
        | some tag =>
            if (sections.get? tag).isSome then
              .error (.malformed (.onLine stream.current.line (.repeatedSection tag)))
            else do
              let (_, stream) ← reading (stream.advance.expect .blockEnd)
              let textLine := stream.current.line
              let (nodes, stream) ← readNodes tags true bound stream
              let some content := (Node.ofNodes nodes textLine).literal?
                | throw (.malformed (.onLine line (.sectionNotText tag)))
              readSections tags line (sections.put tag (Text.trim content)) bound stream

end

end Node

/-- Reads a whole template. -/
def parseNodes (tags : List BlockTag) (stream : TokenStream) : Except TemplateError Node := do
  let (nodes, _) ← Node.readNodes tags false stream.depthBound stream
  return Node.ofNodes nodes stream.current.line

end TemplateMessages.Template

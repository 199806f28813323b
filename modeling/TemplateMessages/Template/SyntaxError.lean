import TemplateMessages.Template.Token

/-!
# Syntax errors

A `Fault` says what is wrong in a template and `Fault.message` words it.  A
syntax error is a fault on a line, of a template that may have a name.
-/

namespace TemplateMessages.Template

/-- The two parts of a trans tag that may follow its message. -/
inductive Section where
  | notes
  | context
deriving DecidableEq, Repr

def Section.name : Section → String
  | .notes => "notes"
  | .context => "context"

inductive Fault where
  | unclosedComment
  | unclosedPrint
  | unclosedBlock
  | unclosedString
  | invalidNumber (digits : String)
  | unexpectedCharacter (found : Char)
  | unexpectedToken (found : TokenKind)
  | expectedToken (found expected : TokenKind)
  | expectedName (found : TokenKind)
  | invalidKey (found : TokenKind)
  | missingTagName
  | unknownTag (name : String)
  | unexpectedTag (name : String)
  | unexpectedEnd
  | intoClause
  | unexpectedClause
  | messageNotText
  | sectionNotText (tag : Section)
  | repeatedSection (tag : Section)
deriving DecidableEq, Repr

def Fault.message : Fault → String
  | .unclosedComment => "Unclosed comment."
  | .unclosedPrint => "Unclosed \"variable\"."
  | .unclosedBlock => "Unclosed \"block\"."
  | .unclosedString => "Unclosed string."
  | .invalidNumber digits => "Invalid number \"" ++ digits ++ "\"."
  | .unexpectedCharacter found => "Unexpected character \"" ++ found.toString ++ "\"."
  | .unexpectedToken found => "Unexpected token " ++ found.describe ++ "."
  | .expectedToken found expected =>
      "Unexpected token " ++ found.describe ++ " (expected " ++ expected.describe ++ ")."
  | .expectedName found => "Unexpected token " ++ found.describe ++ " (expected a name)."
  | .invalidKey found =>
      "A mapping key must be a quoted string, a name, a number or an expression enclosed in " ++
        "parentheses (unexpected token " ++ found.describe ++ ")."
  | .missingTagName => "A block must start with a tag name."
  | .unknownTag name => "Unknown \"" ++ name ++ "\" tag."
  | .unexpectedTag name => "Unexpected \"" ++ name ++ "\" tag."
  | .unexpectedEnd => "Unexpected end of template."
  | .intoClause =>
      "The \"into\" tag is not available in this iteration of the translation syntax."
  | .unexpectedClause =>
      "Unexpected token. Expected the \"with\", \"count\" or \"from\" keyword."
  | .messageNotText => "A message inside a trans tag must be a simple text."
  | .sectionNotText tag =>
      "A message following a " ++ tag.name ++ " tag must be a simple text."
  | .repeatedSection tag => "A trans tag may only have one " ++ tag.name ++ " section."

structure SyntaxError where
  fault : Fault
  line : Nat
  template : Option String
deriving DecidableEq, Repr

namespace SyntaxError

/-- A fault in a template that is not named yet. -/
def onLine (line : Nat) (fault : Fault) : SyntaxError :=
  ⟨fault, line, none⟩

def inTemplate (error : SyntaxError) (template : Option String) : SyntaxError :=
  match template with
  | some name => ⟨error.fault, error.line, some name⟩
  | none => error

def message (error : SyntaxError) : String :=
  let place := match error.template with
    | some name => " in \"" ++ name ++ "\""
    | none => ""
  error.fault.message ++ place ++ " at line " ++ toString error.line

end SyntaxError

end TemplateMessages.Template

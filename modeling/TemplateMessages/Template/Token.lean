import TemplateMessages.Number

/-!
# Template tokens

A template is a run of text tokens and of the tokens between tag delimiters.
Every token carries the line on which it starts, counted from one.
-/

namespace TemplateMessages.Template

inductive TokenKind where
  | text (data : String)
  | varStart
  | varEnd
  | blockStart
  | blockEnd
  | name (name : String)
  | number (value : Number)
  | str (value : String)
  | punct (mark : Char)
  | eof
deriving DecidableEq, Repr

structure Token where
  kind : TokenKind
  line : Nat
deriving DecidableEq, Repr

namespace TokenKind

/-- How a token is named in an error message. -/
def describe : TokenKind → String
  | .text _ => "text"
  | .varStart => "\"\x7b\x7b\""
  | .varEnd => "\"\x7d\x7d\""
  | .blockStart => "\"\x7b%\""
  | .blockEnd => "\"%\x7d\""
  | .name word => "name \"" ++ word ++ "\""
  | .number value => "number \"" ++ value.text ++ "\""
  | .str value => "string \"" ++ value ++ "\""
  | .punct mark => "punctuation \"" ++ mark.toString ++ "\""
  | .eof => "end of template"

/-- Whether a token is of the expected kind.  The value counts only for
punctuation. -/
def fits (expected found : TokenKind) : Bool :=
  match expected, found with
  | .punct expected, .punct found => expected == found
  | expected, found => expected.ctorIdx == found.ctorIdx

def name? : TokenKind → Option String
  | .name word => some word
  | _ => none

end TokenKind

namespace Token

def name? (token : Token) : Option String :=
  token.kind.name?

def isName (token : Token) (name : String) : Bool :=
  token.name? == some name

def isAnyName (token : Token) (names : List String) : Bool :=
  match token.name? with
  | some name => names.contains name
  | none => false

def isPunct (token : Token) (mark : Char) : Bool :=
  token.kind == .punct mark

def isBlockEnd (token : Token) : Bool :=
  token.kind == .blockEnd

def isEof (token : Token) : Bool :=
  token.kind == .eof

end Token

end TemplateMessages.Template

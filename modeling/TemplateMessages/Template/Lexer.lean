import TemplateMessages.Template.SyntaxError

/-!
# Tokens of a template

`tokenize` walks over the source once, character by character, and counts lines
as it goes: a token is recognised at its first character, takes the line that
the walk has reached there, and makes the walk pass over the rest of it.  So a
token's line is one more than the line feeds in front of it.

A dash inside a delimiter trims the text on its side of the tag; a comment or a
block tag without one takes a line feed directly behind it along.
-/

namespace TemplateMessages.Template

inductive TagKind where
  | print
  | block
  | comment
deriving DecidableEq, Repr

namespace TagKind

/-- The kind of tag that a brace opens together with the character behind it. -/
def ofMark? : Char → Option TagKind
  | '{' => some .print
  | '%' => some .block
  | '#' => some .comment
  | _ => none

def closer : TagKind → List Char
  | .print => ['}', '}']
  | .block => ['%', '}']
  | .comment => ['#', '}']

def startToken : TagKind → TokenKind
  | .print => .varStart
  | _ => .blockStart

def endToken : TagKind → TokenKind
  | .print => .varEnd
  | _ => .blockEnd

def unclosed : TagKind → Fault
  | .print => .unclosedPrint
  | .block => .unclosedBlock
  | .comment => .unclosedComment

end TagKind

/-- The kind of tag that opens at `c`. -/
def opens? (c : Char) (rest : List Char) : Option TagKind :=
  if c = '{' then rest.head?.bind TagKind.ofMark? else none

/-- The text in front of the first tag, and that tag's kind with what follows
the two characters that open it. -/
def splitTag : List Char → List Char × Option (TagKind × List Char)
  | [] => ([], none)
  | c :: rest =>
      match opens? c rest with
      | some kind => ([], some (kind, rest.tail))
      | none =>
          let found := splitTag rest
          (c :: found.1, found.2)

/-- The text in front of the first occurrence of a closing delimiter, and what
follows the delimiter. -/
def splitCloser (closer : List Char) : List Char → Option (List Char × List Char)
  | [] => none
  | c :: rest =>
      if closer.isPrefixOf (c :: rest) then some ([], (c :: rest).drop closer.length)
      else (splitCloser closer rest).map fun (text, after) => (c :: text, after)

def countLineFeeds (text : List Char) : Nat :=
  text.count '\n'

def isNameStart (c : Char) : Bool :=
  c.isAlpha || c == '_'

def isNameChar (c : Char) : Bool :=
  c.isAlphanum || c == '_'

def isPunctuation (c : Char) : Bool :=
  ['(', ')', '[', ']', '{', '}', ',', ':', '|', '.', '='].contains c

/-- A token recognised at the front of a text, and the count of characters that
it takes. -/
abbrev Lexeme := TokenKind × Nat

def numberLexeme (text : List Char) : Except Fault Lexeme :=
  let negative := text.head? == some '-'
  let unsigned := if negative then text.tail else text
  let whole := unsigned.takeWhile Char.isDigit
  let fraction := match unsigned.drop whole.length with
    | '.' :: rest => rest.takeWhile Char.isDigit
    | _ => []
  let raw := (if negative then ['-'] else []) ++ whole ++
    (if fraction.isEmpty then [] else '.' :: fraction)
  let number := if fraction.isEmpty then Number.ofInteger? negative whole
    else Number.ofFraction? negative whole fraction
  match number with
  | some value => .ok (.number value, raw.length)
  | none => .error (.invalidNumber (String.ofList raw))

def unescape : Char → Char
  | 'n' => '\n'
  | 't' => '\t'
  | 'r' => '\r'
  | c => c

/-- The value of a string behind its opening quote, and the count of characters
up to and with the closing one. -/
def stringBody (quote : Char) : List Char → Option (List Char × Nat)
  | [] => none
  | ['\\'] => none
  | '\\' :: c :: rest =>
      (stringBody quote rest).map fun (value, length) => (unescape c :: value, length + 2)
  | c :: rest =>
      if c = quote then some ([], 1)
      else (stringBody quote rest).map fun (value, length) => (c :: value, length + 1)

/-- The token that starts at `c` inside a tag. -/
def lexeme (c : Char) (rest : List Char) : Except Fault Lexeme :=
  if isNameStart c then
    let name := (c :: rest).takeWhile isNameChar
    .ok (.name (String.ofList name), name.length)
  else if c.isDigit || (c == '-' && rest.head?.any Char.isDigit) then
    numberLexeme (c :: rest)
  else if c == '\'' || c == '"' then
    match stringBody c rest with
    | some (value, length) => .ok (.str (String.ofList value), length + 1)
    | none => .error .unclosedString
  else if isPunctuation c then .ok (.punct c, 1)
  else .error (.unexpectedCharacter c)

/-- Where the walk stands: in text, which may have to lose its leading blanks,
or in a print or block tag that starts on a line. -/
inductive Place where
  | text (trim : Bool)
  | tag (kind : TagKind) (start : Nat)
deriving DecidableEq, Repr

/-- The text token of a run of text, less what the tags around it trim; no token
when nothing is left. -/
def textToken (trimStart trimEnd : Bool) (line : Nat) (run : List Char) : List Token :=
  let shortened := if trimEnd then Text.stripEnd Text.isBlank run else run
  let kept := if trimStart then Text.stripStart Text.isBlank shortened else shortened
  if kept.isEmpty then []
  else
    [⟨.text (String.ofList kept),
      line + countLineFeeds (shortened.take (shortened.length - kept.length))⟩]

def startsWithDash (text : List Char) : Bool :=
  text.head? == some '-'

/-- One for a line feed that a tag takes along, which a trimming tag leaves to
the trimming. -/
def takenLineFeed (trim : Bool) (after : List Char) : Nat :=
  if !trim && after.head? == some '\n' then 1 else 0

/-- The walk over a source: `skip` characters belong to the token recognised
last, and `line` is the line of the next character. -/
def scan (place : Place) (skip line : Nat) : List Char → Except SyntaxError (List Token)
  | [] =>
      match place with
      | .text _ => .ok [⟨.eof, line⟩]
      | .tag kind start => .error (.onLine start kind.unclosed)
  | c :: rest =>
      let next := if c = '\n' then line + 1 else line
      match skip, place with
      | skip + 1, place => scan place skip next rest
      | 0, .text trim =>
          match splitTag (c :: rest) with
          | ([], some (kind, after)) =>
              let dash := if startsWithDash after then 1 else 0
              if kind = .comment then
                match splitCloser kind.closer (after.drop dash) with
                | none => .error (.onLine line .unclosedComment)
                | some (comment, after) =>
                    let trim := comment.getLast? == some '-'
                    scan (.text trim)
                      (dash + comment.length + 3 + takenLineFeed trim after) next rest
              else (scan (.tag kind line) (dash + 1) next rest).map (⟨kind.startToken, line⟩ :: ·)
          | (run, tag) =>
              let trimEnd := match tag with
                | some (_, after) => startsWithDash after
                | none => false
              (scan (.text false) (run.length - 1) next rest).map
                (textToken trim trimEnd line run ++ ·)
      | 0, .tag kind start =>
          if Text.isBlank c then scan place 0 next rest
          else if kind.closer.isPrefixOf (c :: rest) then
            let after := if kind = .block then takenLineFeed false (rest.drop 1) else 0
            (scan (.text false) (1 + after) next rest).map (⟨kind.endToken, line⟩ :: ·)
          else if c = '-' ∧ kind.closer.isPrefixOf rest then
            (scan (.text true) 2 next rest).map (⟨kind.endToken, line⟩ :: ·)
          else
            match lexeme c rest with
            | .ok (token, length) =>
                (scan (.tag kind start) (length - 1) next rest).map (⟨token, line⟩ :: ·)
            | .error fault => .error (.onLine line fault)

/-- The tokens of a template, the last of them the end of the template. -/
def tokenize (source : String) : Except SyntaxError (List Token) :=
  scan (.text false) 0 1 source.toList

end TemplateMessages.Template

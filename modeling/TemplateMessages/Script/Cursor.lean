import TemplateMessages.Text.Blank

/-!
# Cursors

A cursor is a place in a script.  Between two tokens it stands on the second
one, behind all white space and comments, and knows whether a line ended there.
-/

namespace TemplateMessages.Script

structure Cursor where
  rest : List Char
  line : Nat
  /-- Whether a line ends between the token in front of this place and the one
  behind it. -/
  afterLineEnd : Bool
  /-- Whether this place belongs to a method, where `super` stands for an
  object. -/
  inMethod : Bool
deriving Repr

def isLineEnd (c : Char) : Bool :=
  c == '\n' || c == '\r' || c == '\u2028' || c == '\u2029'

/-- White space inside a line, the byte order mark included. -/
def isSpace (c : Char) : Bool :=
  (Text.isBlank c && c != '\u0085') || c == '\uFEFF'

/-- What is being passed over between tokens.  A block comment is entered and left
through a character of its own, so that no character counts twice. -/
inductive Gap where
  | space
  | lineComment
  | blockOpen
  | blockComment
  | blockClose
deriving DecidableEq, Repr

/-- The number of lines that a character ends. -/
def lineFeeds (c : Char) : Nat :=
  if c = '\n' then 1 else 0

/-- A text behind white space and comments, the line it starts on, and whether a
line ended in front of it. -/
structure Skipped where
  rest : List Char
  line : Nat
  lineEnded : Bool
deriving Repr

/-- Passes over white space and comments.  A comment that is not closed is left
as it starts, and starts no token. -/
def skipGap (gap : Gap) (line : Nat) (lineEnded : Bool) : List Char → Skipped
  | [] =>
      match gap with
      | .space => ⟨[], line, lineEnded⟩
      | .lineComment => ⟨[], line, lineEnded⟩
      | _ => ⟨['/', '*'], line, lineEnded⟩
  | c :: rest =>
      match gap with
      | .space =>
          if isLineEnd c then skipGap .space (line + lineFeeds c) true rest
          else if isSpace c then skipGap .space line lineEnded rest
          else if c = '/' ∧ rest.head? = some '/' then skipGap .lineComment line lineEnded rest
          else if c = '/' ∧ rest.head? = some '*' then skipGap .blockOpen line lineEnded rest
          else ⟨c :: rest, line, lineEnded⟩
      | .lineComment =>
          if isLineEnd c then skipGap .space (line + lineFeeds c) true rest
          else skipGap .lineComment line lineEnded rest
      | .blockOpen => skipGap .blockComment line lineEnded rest
      | .blockComment =>
          if c = '*' ∧ rest.head? = some '/' then skipGap .blockClose line lineEnded rest
          else skipGap .blockComment (line + lineFeeds c) (lineEnded || isLineEnd c) rest
      | .blockClose => skipGap .space line lineEnded rest

namespace Cursor

/-- The cursor behind white space and comments. -/
def toToken (cursor : Cursor) : Cursor :=
  let found := skipGap .space cursor.line false cursor.rest
  ⟨found.rest, found.line, found.lineEnded, cursor.inMethod⟩

/-- The cursor some characters further on, wherever that is. -/
def advance (cursor : Cursor) (count : Nat) : Cursor :=
  let passed := cursor.rest.take count
  ⟨cursor.rest.drop count, cursor.line + passed.count '\n', false, cursor.inMethod⟩

/-- The same place inside a method, or outside any. -/
def setInMethod (cursor : Cursor) (inMethod : Bool) : Cursor :=
  ⟨cursor.rest, cursor.line, cursor.afterLineEnd, inMethod⟩

/-- The start of a script; a first line that starts with `#!` is no part of it. -/
def ofText (text : String) : Cursor :=
  let found := match text.toList with
    | '#' :: '!' :: rest => skipGap .lineComment 1 false rest
    | other => skipGap .space 1 false other
  ⟨found.rest, found.line, found.lineEnded, false⟩

end Cursor

end TemplateMessages.Script

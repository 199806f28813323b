import TemplateMessages.Script.Expr
import TemplateMessages.Script.Literal

/-!
# Readers

A reader takes something from the front of a script, or fails.  The readers of
this module take single tokens and leave the cursor on the next one; those
whose name says so leave it where the token ends.
-/

namespace TemplateMessages.Script

abbrev Reader := StateT Cursor Option

namespace Reader

/-- The punctuators, each in front of those it starts with. -/
def punctuators : List (List Char) :=
  [">>>=", "...", "===", "!==", "**=", "<<=", ">>=", ">>>", "&&=", "||=", "??=", "=>", "==", "!=",
    "<=", ">=", "&&", "||", "??", "?.", "++", "--", "+=", "-=", "*=", "/=", "%=", "&=", "|=", "^=",
    "<<", ">>", "**", "/*", "\x7b", "\x7d", "(", ")", "[", "]", ".", ";", ",", "<", ">", "+", "-",
    "*", "/", "%", "&", "|", "^", "!", "~", "?", ":", "=", "@", "#", "\u0060"].map String.toList

/-- The longest punctuator at the start of a text.  A question mark, a point and
a digit are no optional chain. -/
def punctuatorAt (text : List Char) : List Char :=
  match text with
  | '?' :: '.' :: c :: _ => if c.isDigit then ['?'] else ['?', '.']
  | _ => (punctuators.find? fun mark => mark.isPrefixOf text).getD []

def rest : Reader (List Char) := do
  let cursor ← get
  return cursor.rest

/-- Takes characters and leaves the cursor behind them. -/
def takeRaw (count : Nat) : Reader Unit :=
  modify fun cursor => cursor.advance count

/-- Takes characters that make up a token. -/
def take (count : Nat) : Reader Unit :=
  modify fun cursor => (cursor.advance count).toToken

/-- Goes on to the next token. -/
def toToken : Reader Unit :=
  modify Cursor.toToken

def punctuator : Reader String := do
  return String.ofList (punctuatorAt (← rest))

def isAt (mark : String) : Reader Bool := do
  return punctuatorAt (← rest) == mark.toList

/-- Takes a punctuator if it is there. -/
def eat (mark : String) : Reader Bool := do
  if ← isAt mark then
    take mark.length
    return true
  else return false

def punct (mark : String) : Reader Unit := do
  if !(← eat mark) then failure

/-- Takes a character though a longer punctuator may start with it. -/
def char (c : Char) : Reader Unit := do
  if (← rest).head? == some c then take 1 else failure

/-- Takes a character and leaves the cursor right behind it. -/
def charRaw (c : Char) : Reader Unit := do
  if (← rest).head? == some c then takeRaw 1 else failure

def isAtChar (c : Char) : Reader Bool := do
  return (← rest).head? == some c

def inMethod : Reader Bool := do
  let cursor ← get
  return cursor.inMethod

/-- Reads something as a part of a method, or as something outside any. -/
def within {α : Type} (isMethod : Bool) (reader : Reader α) : Reader α := do
  let outside ← inMethod
  modify fun cursor => cursor.setInMethod isMethod
  let found ← reader
  modify fun cursor => cursor.setInMethod outside
  return found

def isAtEnd : Reader Bool := do
  return (← rest).isEmpty

def afterLineEnd : Reader Bool := do
  let cursor ← get
  return cursor.afterLineEnd

def line : Reader Nat := do
  let cursor ← get
  return cursor.line

/-- The word at the cursor; empty when none starts here. -/
def peekWord : Reader String := do
  return (wordAt (← rest)).1

/-- Takes any word, reserved ones too. -/
def anyWord : Reader String := do
  let (word, length) := wordAt (← rest)
  if word.isEmpty then failure
  take length
  return word

/-- Takes a certain word if it is there. -/
def eatWord (expected : String) : Reader Bool := do
  let (word, length) := wordAt (← rest)
  if word == expected then
    take length
    return true
  else return false

def keyword (expected : String) : Reader Unit := do
  if !(← eatWord expected) then failure

/-- The words that no variable can have for its name. -/
def reservedWords : List String :=
  ["break", "case", "catch", "class", "const", "continue", "debugger", "default", "delete", "do",
    "else", "enum", "export", "extends", "false", "finally", "for", "function", "if", "import",
    "in", "instanceof", "new", "null", "return", "super", "switch", "this", "throw", "true", "try",
    "typeof", "var", "void", "while", "with"]

/-- Takes the name of a variable. -/
def identifier : Reader String := do
  let word ← anyWord
  if reservedWords.contains word then failure
  return word

/-- Whether a reader succeeds here; nothing is taken. -/
def canRead {α : Type} (reader : Reader α) : Reader Bool := fun cursor =>
  some ((reader cursor).isSome, cursor)

/-- Whether two words stand here on one line. -/
def startsPair (first second : String) : Reader Bool :=
  canRead do
    keyword first
    if ← afterLineEnd then failure
    keyword second

/-- Takes items for as long as there is one, at most `bound` of them. -/
def many {α : Type} (item : Reader (Option α)) : Nat → Reader (List α)
  | 0 => pure []
  | bound + 1 => do
      match ← item with
      | none => return []
      | some found =>
          let others ← many item bound
          return found :: others

/-- Takes items with commas between them up to a closing mark.  A comma may
stand in front of the mark. -/
def commaList {α : Type} (close : Reader Bool) (item : Reader (List α)) :
    Nat → Reader (List α)
  | 0 => failure
  | bound + 1 => do
      if ← close then return []
      let found ← item
      if ← eat "," then
        let others ← commaList close item bound
        return found ++ others
      else if ← close then return found
      else failure

def string : Reader Expr := do
  match ← rest with
  | quote :: text =>
      if quote == '"' || quote == '\'' then
        match scanString quote 0 text with
        | some (codes, length) =>
            take (length + 1)
            return .literal (textOf codes)
        | none => failure
      else failure
  | [] => failure

def number : Reader Expr := do
  match numberLength? (← rest) with
  | some length =>
      take length
      return .group []
  | none => failure

def pattern : Reader Expr := do
  match ← rest with
  | '/' :: text =>
      match patternLength? text with
      | some length =>
          take (length + 1)
          return .group []
      | none => failure
  | _ => failure

/-- The end of a statement: a semicolon, or a place where one may be left out. -/
def statementEnd : Reader Unit := do
  if ← eat ";" then return
  if (← isAt "\x7d") || (← isAtEnd) || (← afterLineEnd) then return
  failure

end Reader

end TemplateMessages.Script

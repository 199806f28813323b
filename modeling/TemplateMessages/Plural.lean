import TemplateMessages.Text.Digit

/-!
# Plural rules

A pluralised message is written as its alternatives with a pipe between two of
them; a pipe that belongs to a text is doubled.  An alternative that names the
interval of counts it is meant for is refused, because a catalogue has no place
for it.
-/

namespace TemplateMessages.Plural

inductive PluralError where
  | intervalRule
  | alternativeCount (found : Nat)
deriving DecidableEq, Repr

def PluralError.message : PluralError → String
  | .intervalRule => "Interval based pluralisation definitions are not supported."
  | .alternativeCount found =>
      "A pluralised message must have exactly two alternatives, found " ++ toString found ++ "."

/-- The alternatives of a text: a doubled pipe is a pipe of the text, a single
one ends the alternative. -/
def alternatives : List Char → List Char × List (List Char)
  | [] => ([], [])
  | '|' :: '|' :: rest =>
      let found := alternatives rest
      ('|' :: found.1, found.2)
  | '|' :: rest =>
      let found := alternatives rest
      ([], found.1 :: found.2)
  | c :: rest =>
      let found := alternatives rest
      (c :: found.1, found.2)

/-- The characters that a rule loses at its ends; fewer than all white space. -/
def isRuleBlank (c : Char) : Bool :=
  [' ', '\t', '\n', '\r', '\x00', '\x0b'].contains c

/-- What follows an optional minus sign and a decimal number. -/
def afterNumber? (text : List Char) : Option (List Char) :=
  let unsigned := if text.head? == some '-' then text.tail else text
  let whole := unsigned.takeWhile Text.isDecimalDigit
  if whole.isEmpty then none
  else
    match unsigned.drop whole.length with
    | '.' :: rest =>
        let fraction := rest.takeWhile Text.isDecimalDigit
        if fraction.isEmpty then some ('.' :: rest) else some (rest.drop fraction.length)
    | rest => some rest

def afterLowerBound? (text : List Char) : Option (List Char) :=
  match ['-', 'I', 'n', 'f'].isPrefixOf? text with
  | some rest => some rest
  | none => afterNumber? text

def afterUpperBound? (text : List Char) : Option (List Char) :=
  match ['+', 'I', 'n', 'f'].isPrefixOf? text, ['I', 'n', 'f'].isPrefixOf? text with
  | some rest, _ => some rest
  | none, some rest => some rest
  | none, none => afterNumber? text

def skipBlanks (text : List Char) : List Char :=
  text.dropWhile Text.isBlank

/-- A character that may follow the first digit of an explicit set of counts. -/
def isSetChar (c : Char) : Bool :=
  Text.isBlank c || Text.isDecimalDigit c || ['*', ',', '-', '?', '+', '(', '.', ')'].contains c

/-- A set of counts in braces, behind the opening one. -/
def isCountSet (text : List Char) : Bool :=
  let text := skipBlanks text
  let unsigned := if text.head? == some '-' then text.tail else text
  unsigned.head?.any Text.isDecimalDigit && (unsigned.dropWhile isSetChar).head? == some '}'

def isBracket (c : Char) : Bool :=
  c == '[' || c == ']'

/-- A pair of bounds, behind the opening bracket. -/
def isBoundPair (text : List Char) : Bool :=
  match (afterLowerBound? (skipBlanks text)).map skipBlanks with
  | some (',' :: rest) =>
      match (afterUpperBound? (skipBlanks rest)).map skipBlanks with
      | some (c :: _) => isBracket c
      | _ => false
  | _ => false

/-- Whether a rule starts with an interval of counts: a set in braces or a pair
of bounds in brackets, either way round. -/
def isInterval : List Char → Bool
  | '{' :: rest => isCountSet rest
  | '[' :: rest => isBoundPair rest
  | ']' :: rest => isBoundPair rest
  | _ => false

/-- The parts of a text that are rules before trimming.  Among pipes alone each
one separates; otherwise an empty part is no rule. -/
def ruleParts (text : List Char) : List (List Char) :=
  if !text.isEmpty && text.all (· == '|') then List.replicate (text.length + 1) []
  else
    let found := alternatives text
    (found.1 :: found.2).filter fun part => !part.isEmpty

def ofPart (part : List Char) : Except PluralError String :=
  let rule := Text.strip isRuleBlank part
  if isInterval rule then .error .intervalRule else .ok (String.ofList rule)

/-- The rules of a text, in order. -/
def standardRules (text : String) : Except PluralError (List String) :=
  (ruleParts text.toList).mapM ofPart

/-- The singular and the plural of a text with exactly two rules. -/
def split (text : String) : Except PluralError (String × String) := do
  match ← standardRules text with
  | [singular, plural] => return (singular, plural)
  | rules => throw (.alternativeCount rules.length)

/-- A text with its pipes doubled. -/
def escape (rule : String) : String :=
  String.ofList (rule.toList.flatMap fun c => if c = '|' then ['|', '|'] else [c])

def join (singular plural : String) : String :=
  escape singular ++ "|" ++ escape plural

end TemplateMessages.Plural

import TemplateMessages.Json.Document
import TemplateMessages.Text.Surrogate

/-!
# Reading JSON documents

`Json.parse?` reads one document and nothing after it but blanks.  The grammar
is the strict one: no comments, no trailing commas, no leading zeros, and no
raw control characters inside strings.  Every nested document is at least one
character shorter than the text around it, so the length of the text bounds the
depth of the recursion.
-/

namespace TemplateMessages.Json

open Text (isHighSurrogate isLowSurrogate pairedChar)

def isSpace (c : Char) : Bool :=
  c == ' ' || c == '\t' || c == '\n' || c == '\r'

def skipSpace (text : List Char) : List Char :=
  text.dropWhile isSpace

def hexValue? (c : Char) : Option Nat :=
  if c.isDigit then some (c.toNat - '0'.toNat)
  else if 'a' ≤ c ∧ c ≤ 'f' then some (c.toNat - 'a'.toNat + 10)
  else if 'A' ≤ c ∧ c ≤ 'F' then some (c.toNat - 'A'.toNat + 10)
  else none

/-- The number that hexadecimal digits write. -/
def hexValues? (digits : List Char) : Option Nat :=
  digits.foldl (fun value c => do return 16 * (← value) + (← hexValue? c)) (some 0)

def unescape? : Char → Option Char
  | '"' => some '"'
  | '\\' => some '\\'
  | '/' => some '/'
  | 'b' => some '\x08'
  | 'f' => some '\x0c'
  | 'n' => some '\n'
  | 'r' => some '\r'
  | 't' => some '\t'
  | _ => none

/-- Reads a string behind its opening quote.  `read` holds its characters in
reverse, and `paired` says whether every surrogate so far had its partner. -/
def readString (paired : Bool) (read : List Char) : List Char → Option (Json × List Char)
  | [] => none
  | '"' :: rest =>
      some (if paired then .string (String.ofList read.reverse) else .unpairedSurrogate, rest)
  | '\\' :: 'u' :: a :: b :: c :: d :: rest =>
      match hexValues? [a, b, c, d] with
      | none => none
      | some unit =>
          if isLowSurrogate unit then readString false read rest
          else if isHighSurrogate unit then
            match rest with
            | '\\' :: 'u' :: e :: f :: g :: h :: rest' =>
                match hexValues? [e, f, g, h] with
                | none => none
                | some low =>
                    if isLowSurrogate low then
                      readString paired (pairedChar unit low :: read) rest'
                    else readString false read ('\\' :: 'u' :: e :: f :: g :: h :: rest')
            | other => readString false read other
          else readString paired (Char.ofNat unit :: read) rest
  | '\\' :: c :: rest =>
      match unescape? c with
      | some plain => readString paired (plain :: read) rest
      | none => none
  | c :: rest => if c.toNat < 0x20 then none else readString paired (c :: read) rest
termination_by text => text.length

/-- A non-empty run of digits and what follows it. -/
def readDigits (text : List Char) : Option (List Char × List Char) :=
  let digits := text.takeWhile Char.isDigit
  if digits.isEmpty then none else some (digits, text.drop digits.length)

def readFraction (text : List Char) : Option (Option (List Char) × List Char) :=
  match text with
  | '.' :: rest => (readDigits rest).map fun (digits, rest) => (some digits, rest)
  | _ => some (none, text)

def readExponent (text : List Char) : Option (Option Int × List Char) :=
  match text with
  | c :: rest =>
      if c == 'e' || c == 'E' then
        let (negative, digits) := match rest with
          | '-' :: digits => (true, digits)
          | '+' :: digits => (false, digits)
          | digits => (false, digits)
        (readDigits digits).map fun (digits, rest) =>
          let value : Int := Text.digitsValue digits
          (some (if negative then -value else value), rest)
      else some (none, text)
  | [] => some (none, text)

/-- Reads a number; a leading zero stands alone. -/
def readNumber (text : List Char) : Option (Json × List Char) := do
  let (negative, text) := match text with
    | '-' :: rest => (true, rest)
    | _ => (false, text)
  let (whole, text) ← readDigits text
  if whole.length > 1 && whole.head? == some '0' then none
  let (fraction, text) ← readFraction text
  let (exponent, text) ← readExponent text
  return (.number ⟨negative, whole, fraction, exponent⟩, text)

def expectWord (word : List Char) (document : Json) (text : List Char) :
    Option (Json × List Char) :=
  (word.isPrefixOf? text).map fun rest => (document, rest)

mutual

def readDocument : Nat → List Char → Option (Json × List Char)
  | 0, _ => none
  | fuel + 1, text =>
      match skipSpace text with
      | '{' :: rest =>
          match skipSpace rest with
          | '}' :: rest => some (.object [], rest)
          | rest => (readFields fuel rest).map fun (fields, rest) => (.object fields, rest)
      | '[' :: rest =>
          match skipSpace rest with
          | ']' :: rest => some (.array [], rest)
          | rest => (readItems fuel rest).map fun (items, rest) => (.array items, rest)
      | '"' :: rest => readString true [] rest
      | 't' :: rest => expectWord ['r', 'u', 'e'] (.bool true) rest
      | 'f' :: rest => expectWord ['a', 'l', 's', 'e'] (.bool false) rest
      | 'n' :: rest => expectWord ['u', 'l', 'l'] .null rest
      | text => readNumber text

def readItems : Nat → List Char → Option (List Json × List Char)
  | 0, _ => none
  | fuel + 1, text => do
      let (item, rest) ← readDocument fuel text
      match skipSpace rest with
      | ',' :: rest =>
          let (items, rest) ← readItems fuel rest
          return (item :: items, rest)
      | ']' :: rest => return ([item], rest)
      | _ => none

def readFields : Nat → List Char → Option (List (String × Json) × List Char)
  | 0, _ => none
  | fuel + 1, text =>
      match skipSpace text with
      | '"' :: rest => do
          let (.string key, rest) ← readString true [] rest | none
          let ':' :: rest := skipSpace rest | none
          let (value, rest) ← readDocument fuel rest
          match skipSpace rest with
          | ',' :: rest =>
              let (fields, rest) ← readFields fuel rest
              return ((key, value) :: fields, rest)
          | '}' :: rest => return ([(key, value)], rest)
          | _ => none
      | _ => none

end

/-- The document that a text holds, blanks around it apart. -/
def parse? (text : String) : Option Json :=
  let characters := text.toList
  match readDocument (2 * characters.length + 2) characters with
  | some (document, rest) => if (skipSpace rest).isEmpty then some document else none
  | none => none

end TemplateMessages.Json

import TemplateMessages.Json.Reader
import TemplateMessages.Script.Cursor

/-!
# Literals

Each function here looks at what follows the start of a literal and answers how
many characters belong to it, together with the code points that they stand for
where these matter.
-/

namespace TemplateMessages.Script

def isNameStart (c : Char) : Bool :=
  c.isAlpha || c == '$' || c == '_' ||
    (0x80 ≤ c.toNat && !isSpace c && !isLineEnd c)

def isNameChar (c : Char) : Bool :=
  isNameStart c || c.isDigit || c == '\u200c' || c == '\u200d'

/-- A word may start here: with a character of a name, or with one that is
escaped. -/
def isWordStart (c : Char) : Bool :=
  isNameStart c || c == '\\'

def isOctalDigit (c : Char) : Bool := '0' ≤ c && c ≤ '7'

def octalValue (digits : List Char) : Nat :=
  digits.foldl (fun value c => 8 * value + (c.toNat - '0'.toNat)) 0

/-- An octal escape: as many of three digits as a byte holds. -/
def octalEscape (text : List Char) : List Nat × Nat :=
  let digits := (text.take 3).takeWhile isOctalDigit
  let digits := if octalValue digits < 256 then digits else digits.take 2
  ([octalValue digits], digits.length)

/-- An escape behind its backslash: the code points that it stands for and its
length.  Octal escapes are older than templates, which refuse them. -/
def escape? (octal : Bool) (text : List Char) : Option (List Nat × Nat) :=
  match text with
  | [] => none
  | 'b' :: _ => some ([0x08], 1)
  | 't' :: _ => some ([0x09], 1)
  | 'n' :: _ => some ([0x0a], 1)
  | 'v' :: _ => some ([0x0b], 1)
  | 'f' :: _ => some ([0x0c], 1)
  | 'r' :: _ => some ([0x0d], 1)
  | '\r' :: '\n' :: _ => some ([], 2)
  | 'x' :: a :: b :: _ => (Json.hexValues? [a, b]).map fun value => ([value], 3)
  | 'u' :: '{' :: rest =>
      let digits := rest.takeWhile (· != '}')
      if digits.isEmpty || digits.length = rest.length then none
      else
        ((Json.hexValues? digits).filter (· ≤ 0x10FFFF)).map fun value =>
          ([value], digits.length + 3)
  | 'u' :: a :: b :: c :: d :: _ =>
      (Json.hexValues? [a, b, c, d]).map fun value => ([value], 5)
  | c :: rest =>
      if c == 'x' || c == 'u' then none
      else if c.isDigit then
        if c == '0' && !(rest.head?.any Char.isDigit) then some ([0], 1)
        else if !octal then none
        else if isOctalDigit c then some (octalEscape (c :: rest))
        else some ([c.toNat], 1)
      else if isLineEnd c then some ([], 1)
      else some ([c.toNat], 1)

/-- The character of a name at the start of a text and its length; it may be
escaped by its number. -/
def nameCharAt? (text : List Char) : Option (Char × Nat) :=
  match text with
  | '\\' :: 'u' :: rest =>
      match escape? false ('u' :: rest) with
      | some ([code], length) => some (Char.ofNat code, length + 1)
      | _ => none
  | c :: _ => some (c, 1)
  | [] => none

/-- The rest of a word whose next character must be of a class, and its length.
`skip` characters belong to the escape read last. -/
def wordFrom (isNext : Char → Bool) (skip : Nat) : List Char → List Char × Nat
  | [] => ([], 0)
  | c :: rest =>
      match skip with
      | skip + 1 =>
          let found := wordFrom isNext skip rest
          (found.1, found.2 + 1)
      | 0 =>
          match nameCharAt? (c :: rest) with
          | none => ([], 0)
          | some (named, length) =>
              if isNext named then
                let found := wordFrom isNameChar (length - 1) rest
                (named :: found.1, found.2 + 1)
              else ([], 0)

/-- The word at the start of a text and its length; an empty one when none
starts here. -/
def wordAt (text : List Char) : String × Nat :=
  let found := wordFrom isNameStart 0 text
  (String.ofList found.1, found.2)

/-- A string behind its opening quote: its code points, and its length with the
closing quote.  `skip` characters belong to the escape read last. -/
def scanString (quote : Char) (skip : Nat) : List Char → Option (List Nat × Nat)
  | [] => none
  | c :: rest =>
      match skip with
      | skip + 1 => (scanString quote skip rest).map fun found => (found.1, found.2 + 1)
      | 0 =>
          if c = quote then some ([], 1)
          else if c = '\\' then
            match escape? true rest with
            | some (codes, length) =>
                (scanString quote length rest).map fun found => (codes ++ found.1, found.2 + 1)
            | none => none
          else if c = '\n' ∨ c = '\r' then none
          else (scanString quote 0 rest).map fun found => (c.toNat :: found.1, found.2 + 1)

/-- A part of a template up to its end or to a substitution: the code points,
unless an escape in it has no meaning, and the length.  A line ends in a line
feed, however it is written. -/
def scanTemplate (skip : Nat) : List Char → Option (Option (List Nat) × Nat)
  | [] => none
  | c :: rest =>
      match skip with
      | skip + 1 => (scanTemplate skip rest).map fun found => (found.1, found.2 + 1)
      | 0 =>
          if c = '\u0060' ∨ (c = '$' ∧ rest.head? = some '{') then some (some [], 0)
          else
            let (codes, length) : Option (List Nat) × Nat :=
              if c = '\\' then
                match escape? false rest with
                | some (codes, length) => (some codes, length)
                | none => (none, 1)
              else if c = '\r' then
                if rest.head? = some '\n' then (some [], 0) else (some [0x0a], 0)
              else (some [c.toNat], 0)
            (scanTemplate length rest).map fun found =>
              (codes.bind fun codes => found.1.map (codes ++ ·), found.2 + 1)

/-- The text of code points, when it is one. -/
def textOf (codes : List Nat) : Option String :=
  (Text.ofCodePoints? codes).map String.ofList

/-- The length of a regular expression behind its opening slash, without its
flags. -/
def scanPattern (inClass escaped : Bool) : List Char → Option Nat
  | [] => none
  | c :: rest =>
      if isLineEnd c then none
      else if escaped then (scanPattern inClass false rest).map (· + 1)
      else if c = '/' ∧ inClass = false then some 1
      else
        let inClass := if c = '[' then true else if c = ']' then false else inClass
        (scanPattern inClass (c == '\\') rest).map (· + 1)

/-- The length of a regular expression behind its opening slash. -/
def patternLength? (text : List Char) : Option Nat :=
  if text.head? = some '*' then none
  else
    (scanPattern false false text).map fun length =>
      length + ((text.drop length).takeWhile isNameChar).length

def isDigitOrGap (c : Char) : Bool := c.isDigit || c == '_'

/-- The length of an exponent, if one is there. -/
def exponentLength (text : List Char) : Nat :=
  match text with
  | mark :: rest =>
      if mark == 'e' || mark == 'E' then
        let sign := match rest with
          | '+' :: _ => 1
          | '-' :: _ => 1
          | _ => 0
        let digits := ((rest.drop sign).takeWhile isDigitOrGap).length
        if digits = 0 then 0 else 1 + sign + digits
      else 0
  | [] => 0

/-- The length of a decimal number. -/
def decimalLength (text : List Char) : Nat :=
  let whole := (text.takeWhile isDigitOrGap).length
  let fraction := match text.drop whole with
    | '.' :: rest => 1 + (rest.takeWhile isDigitOrGap).length
    | _ => 0
  let exponent := exponentLength (text.drop (whole + fraction))
  let big := if (text.drop (whole + fraction + exponent)).head? = some 'n' then 1 else 0
  whole + fraction + exponent + big

/-- The length of a number, if one starts here.  No name may follow a number. -/
def numberLength? (text : List Char) : Option Nat :=
  let starts := match text with
    | '.' :: c :: _ => c.isDigit
    | c :: _ => c.isDigit
    | [] => false
  if !starts then none
  else
    let length := match text with
      | '0' :: radix :: rest =>
          if ['x', 'X', 'o', 'O', 'b', 'B'].contains radix then
            2 + (rest.takeWhile fun c => c.isAlphanum || c == '_').length
          else decimalLength text
      | _ => decimalLength text
    if (text.drop length).head?.any isNameStart then none else some length

end TemplateMessages.Script

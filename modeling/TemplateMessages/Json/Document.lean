import TemplateMessages.Value

/-!
# JSON documents

A document keeps what its text says and a value forgets: the digits of its
numbers, and the order and repetition of its fields.  A string whose escapes
leave a surrogate without its partner names no text; it is a document of its
own kind, because a reader that skips the string need not refuse it.
-/

namespace TemplateMessages

/-- A number as its text spells it. -/
structure Json.Numeral where
  negative : Bool
  whole : List Char
  fraction : Option (List Char)
  exponent : Option Int
deriving DecidableEq, Repr

inductive Json where
  | null
  | bool (value : Bool)
  | number (numeral : Json.Numeral)
  | string (value : String)
  | unpairedSurrogate
  | array (items : List Json)
  | object (fields : List (String × Json))
deriving Repr, Inhabited

namespace Json

/-- Reads digits into an unsigned word for as long as they fit; returns the word
and the digits that are left. -/
def absorb (word : Nat) : List Char → Nat × List Char
  | [] => (word, [])
  | c :: rest =>
      let next := 10 * word + (c.toNat - '0'.toNat)
      if next ≤ Number.wordMax then absorb next rest else (word, c :: rest)

def floatPower (exponent : Nat) : Float :=
  Float.ofScientific 1 false exponent

/-- The value `x * 10 ^ exponent`, rounded at every step; powers beyond the
three-hundred-and-eighth are divided out in several steps.  No finite value is
left when the result overflows. -/
def scaled? (x : Float) (exponent : Int) : Nat → Option Float
  | 0 => some x
  | steps + 1 =>
      if exponent.natAbs ≤ 308 then
        if 0 ≤ exponent then
          let y := x * floatPower exponent.toNat
          if y.isInf then none else some y
        else some (x / floatPower exponent.natAbs)
      else if x == 0.0 then some x
      else if 0 ≤ exponent then none
      else scaled? (x / floatPower 308) (exponent + 308) steps

/-- A numeral without point and exponent is an integer when a word holds it; any
other, and a negative zero, is a binary64 value. -/
def Numeral.number? (numeral : Numeral) : Option Number :=
  let (word, surplus) := absorb 0 numeral.whole
  let float (x : Float) : Option Number :=
    Number.ofFloat? (if numeral.negative then -x else x)
  if numeral.fraction.isNone && numeral.exponent.isNone && surplus.isEmpty then
    if !numeral.negative then some (.integer word)
    else if word = 0 ∨ Number.signedBound < word then float word.toUInt64.toFloat
    else some (.integer (-word))
  else
    let fraction := numeral.fraction.getD []
    let (word, left) := absorb word fraction
    let exponent : Int :=
      surplus.length - (fraction.length - left.length : Nat) + numeral.exponent.getD 0
    (scaled? word.toUInt64.toFloat exponent 8).bind float

mutual

/-- The value of a document; none when a string names no text or a number is out
of range. -/
def value? : Json → Option Value
  | .null => some .null
  | .bool value => some (.bool value)
  | .number numeral => numeral.number?.map .number
  | .string value => some (.string value)
  | .unpairedSurrogate => none
  | .array items => (values? items).map .array
  | .object fields => (members? fields).map fun pairs => .object (Assoc.ofPairs pairs)

def values? : List Json → Option (List Value)
  | [] => some []
  | item :: rest =>
      match value? item, values? rest with
      | some value, some values => some (value :: values)
      | _, _ => none

def members? : List (String × Json) → Option (List (String × Value))
  | [] => some []
  | (key, item) :: rest =>
      match value? item, members? rest with
      | some value, some members => some ((key, value) :: members)
      | _, _ => none

end

/-- The last value written for a field of an object. -/
def field? (name : String) : Json → Option Json
  | .object fields => fields.foldl (fun found field => if field.1 = name then some field.2 else found) none
  | _ => none

end Json

end TemplateMessages

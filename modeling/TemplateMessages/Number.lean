import TemplateMessages.Decimal.Shortest
import TemplateMessages.Text.Digit

/-!
# Numbers

A number is an integer of sixty-four bits, signed or unsigned, or a finite
binary64 value.  The latter is kept as its bits, so two numbers are equal
exactly when they are written alike; `0` and `0.0` differ.
-/

namespace TemplateMessages

inductive Number where
  | integer (value : Int)
  | float (bits : UInt64)
deriving DecidableEq, Repr

namespace Number

def text : Number → String
  | .integer value => toString value
  | .float bits => Decimal.textOfBits bits

def isFinite (x : Float) : Bool :=
  !x.isNaN && !x.isInf

def ofFloat? (x : Float) : Option Number :=
  if isFinite x then some (.float x.toBits) else none

/-- The first number that is too great for a signed word. -/
def signedBound : Nat := 0x8000000000000000

/-- The integer that `digits` write, when a signed word holds it. -/
def ofInteger? (negative : Bool) (digits : List Char) : Option Number :=
  let magnitude := Text.digitsValue digits
  if negative then
    if magnitude ≤ signedBound then some (.integer (-magnitude)) else none
  else if magnitude < signedBound then some (.integer magnitude) else none

/-- The finite binary64 value nearest to a decimal fraction. -/
def ofFraction? (negative : Bool) (whole fraction : List Char) : Option Number :=
  let magnitude :=
    Float.ofScientific (Text.digitsValue (whole ++ fraction)) true fraction.length
  ofFloat? (if negative then -magnitude else magnitude)

/-- The greatest unsigned word. -/
def wordMax : Nat := 0xFFFFFFFFFFFFFFFF

/-- A count taken from a number: a fraction is cut off and the greatest word
bounds the result.  A number below zero is no count. -/
def count? : Number → Option Nat
  | .integer value => if 0 ≤ value then some (min value.toNat wordMax) else none
  | .float bits =>
      let x := Decimal.Binary.ofBits bits
      if bits >>> 63 = 1 ∧ x.significand ≠ 0 then none
      else
        let whole := x.significand * Decimal.powerOfTwo x.exponent.toNat /
          Decimal.powerOfTwo (-x.exponent).toNat
        some (min whole wordMax)

end Number

end TemplateMessages

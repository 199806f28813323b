/-!
# Shortest decimal digits

A finite binary64 value stands for every real that rounds to it, an interval
around the value itself.  `shortest` selects the decimal with the fewest digits
in that interval, and of two with equally few the nearer one; a tie goes to the
even coefficient.  All arithmetic is exact: two scaled naturals are compared by
cross-multiplication.
-/

namespace TemplateMessages.Decimal

def powerOfTwo (exponent : Nat) : Nat := Nat.pow 2 exponent

def powerOfTen (exponent : Nat) : Nat := Nat.pow 10 exponent

/-- The magnitude `significand * 2 ^ exponent` of a finite binary64 value. -/
structure Binary where
  significand : Nat
  exponent : Int
  /-- The gap to the neighbour below is half of the gap to the neighbour above. -/
  narrowBelow : Bool
deriving DecidableEq, Repr

/-- The magnitude that the bits of a finite value encode. -/
def Binary.ofBits (bits : UInt64) : Binary :=
  let biased := ((bits >>> 52) &&& 0x7FF).toNat
  let fraction := (bits &&& 0xFFFFFFFFFFFFF).toNat
  if biased = 0 then ⟨fraction, -1074, false⟩
  else ⟨0x10000000000000 + fraction, (biased : Int) - 1075, decide (fraction = 0 ∧ 1 < biased)⟩

/-- The number `coefficient * 10 ^ exponent`. -/
structure Scientific where
  coefficient : Nat
  exponent : Int
deriving DecidableEq, Repr

/-- Compares `a * 10 ^ i` with `b * 2 ^ j`. -/
def compareScaled (a : Nat) (i : Int) (b : Nat) (j : Int) : Ordering :=
  compare (a * powerOfTen i.toNat * powerOfTwo (-j).toNat)
    (b * powerOfTwo j.toNat * powerOfTen (-i).toNat)

/-- Whether `d` lies among the reals that round to `x`; the two ends round to
`x` exactly when its significand is even. -/
def Binary.contains (x : Binary) (d : Scientific) : Bool :=
  let low := if x.narrowBelow then 4 * x.significand - 1 else 4 * x.significand - 2
  let high := 4 * x.significand + 2
  let closed := x.significand % 2 == 0
  let atLow := compareScaled d.coefficient d.exponent low (x.exponent - 2)
  let atHigh := compareScaled d.coefficient d.exponent high (x.exponent - 2)
  (atLow == .gt || (closed && atLow == .eq)) && (atHigh == .lt || (closed && atHigh == .eq))

/-- The greatest multiple of `10 ^ grid` not above `x`, as a coefficient. -/
def Binary.floorAt (x : Binary) (grid : Int) : Nat :=
  (x.significand * powerOfTwo x.exponent.toNat * powerOfTen (-grid).toNat)
    / (powerOfTwo (-x.exponent).toNat * powerOfTen grid.toNat)

/-- The multiple of `10 ^ grid` that rounds to `x`, the nearer of two. -/
def Binary.pointAt? (x : Binary) (grid : Int) : Option Scientific :=
  let below := x.floorAt grid
  let lower : Scientific := ⟨below, grid⟩
  let upper : Scientific := ⟨below + 1, grid⟩
  match x.contains lower, x.contains upper with
  | false, false => none
  | true, false => some lower
  | false, true => some upper
  | true, true =>
      match compareScaled (2 * below + 1) grid (2 * x.significand) x.exponent with
      | .gt => some lower
      | .lt => some upper
      | .eq => some (if below % 2 = 0 then lower else upper)

/-- The least power of ten above `x` from `scale` on, within `steps`. -/
def Binary.scaleFrom (x : Binary) (scale : Int) : Nat → Int
  | 0 => scale
  | steps + 1 =>
      if compareScaled 1 scale x.significand x.exponent == .gt then scale
      else x.scaleFrom (scale + 1) steps

/-- The least `k` with `x < 10 ^ k`; the binary logarithm starts the search at
most one power too low. -/
def Binary.scale (x : Binary) : Int :=
  x.scaleFrom (Int.fdiv (((x.significand.log2 : Int) + x.exponent) * 30103) 100000 - 1) 4

def Scientific.dropZeros (d : Scientific) : Nat → Scientific
  | 0 => d
  | steps + 1 =>
      if d.coefficient % 10 = 0 then
        Scientific.dropZeros ⟨d.coefficient / 10, d.exponent + 1⟩ steps
      else d

/-- The decimal with the fewest digits that rounds to `x`; seventeen digits
always suffice, so the exact value at the end is never reached. -/
def Binary.shortest (x : Binary) : Scientific :=
  let scale := x.scale
  let found := (List.range 17).findSome? fun (digits : Nat) => x.pointAt? (scale - 1 - digits)
  let exact : Scientific :=
    ⟨x.significand * Nat.pow 5 (-x.exponent).toNat * powerOfTwo x.exponent.toNat,
      min x.exponent 0⟩
  (found.getD exact).dropZeros 18

/-- Digits are written positionally while the exponent of the leading one lies
in `[-5, 16)`, and with a signed exponent otherwise; a positional number always
has a fractional part. -/
def Scientific.written (d : Scientific) : String :=
  let digits := (toString d.coefficient).toList
  let leading : Int := d.exponent + digits.length - 1
  if leading < -5 ∨ 16 ≤ leading then
    let rest := digits.drop 1
    let point := if rest.isEmpty then [] else '.' :: rest
    let sign := if leading < 0 then "e-" else "e+"
    String.ofList (digits.take 1 ++ point) ++ sign ++ toString leading.natAbs
  else if leading < 0 then
    "0." ++ String.ofList (List.replicate (leading.natAbs - 1) '0' ++ digits)
  else if 0 ≤ d.exponent then
    String.ofList (digits ++ List.replicate d.exponent.toNat '0') ++ ".0"
  else
    String.ofList (digits.take (leading.toNat + 1) ++ '.' :: digits.drop (leading.toNat + 1))

/-- The text of a finite binary64 value, given by its bits. -/
def textOfBits (bits : UInt64) : String :=
  let sign := if bits >>> 63 = 1 then "-" else ""
  let magnitude := Binary.ofBits bits
  sign ++ if magnitude.significand = 0 then "0.0" else magnitude.shortest.written

end TemplateMessages.Decimal

/-!
# Surrogates

Code units outside the characters of the basic plane come in pairs, a high and a
low surrogate.  A list of code points that escapes have spelled out is a text
when each surrogate in it has its partner.
-/

namespace TemplateMessages.Text

def isHighSurrogate (unit : Nat) : Bool := 0xD800 ≤ unit && unit < 0xDC00

def isLowSurrogate (unit : Nat) : Bool := 0xDC00 ≤ unit && unit < 0xE000

/-- The character of a high and a low surrogate. -/
def pairedChar (high low : Nat) : Char :=
  Char.ofNat (0x10000 + (high - 0xD800) * 0x400 + (low - 0xDC00))

/-- The characters of a list of code points, surrogates next to each other
joined; none when a surrogate is left alone. -/
def ofCodePoints? : List Nat → Option (List Char)
  | [] => some []
  | code :: rest =>
      if isHighSurrogate code then
        match rest with
        | low :: rest =>
            if isLowSurrogate low then (ofCodePoints? rest).map (pairedChar code low :: ·) else none
        | [] => none
      else if isLowSurrogate code then none
      else (ofCodePoints? rest).map (Char.ofNat code :: ·)

end TemplateMessages.Text

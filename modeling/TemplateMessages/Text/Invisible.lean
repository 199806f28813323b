import TemplateMessages.Text.Blank

/-!
# Characters that cannot be seen

A path is quoted so that every character of it can be seen.  A control or format
character, a separator other than the space, a private one, and a mark that is
drawn over the character before it cannot be seen on their own.  The marks are
those of the blocks that hold nothing else.
-/

namespace TemplateMessages.Text

/-- The closed ranges of the general categories Cc, Cf, Zl, Zp and Zs (version 16)
without the space. -/
def formatRanges : List (Nat × Nat) :=
  [(0x00, 0x1F), (0x7F, 0xA0), (0xAD, 0xAD), (0x600, 0x605), (0x61C, 0x61C), (0x6DD, 0x6DD),
   (0x70F, 0x70F), (0x890, 0x891), (0x8E2, 0x8E2), (0x1680, 0x1680), (0x180E, 0x180E),
   (0x2000, 0x200F), (0x2028, 0x202F), (0x205F, 0x2064), (0x2066, 0x206F), (0x3000, 0x3000),
   (0xFEFF, 0xFEFF), (0xFFF9, 0xFFFB), (0x110BD, 0x110BD), (0x110CD, 0x110CD),
   (0x13430, 0x1343F), (0x1BCA0, 0x1BCA3), (0x1D173, 0x1D17A), (0xE0001, 0xE0001),
   (0xE0020, 0xE007F)]

/-- The closed ranges of private use. -/
def privateRanges : List (Nat × Nat) :=
  [(0xE000, 0xF8FF), (0xF0000, 0xFFFFD), (0x100000, 0x10FFFD)]

/-- The blocks of combining marks and of variation selectors. -/
def markRanges : List (Nat × Nat) :=
  [(0x300, 0x36F), (0x1AB0, 0x1ACE), (0x1DC0, 0x1DFF), (0x20D0, 0x20F0), (0xFE00, 0xFE0F),
   (0xFE20, 0xFE2F), (0xE0100, 0xE01EF)]

def isInvisible (c : Char) : Bool :=
  inRanges formatRanges c.toNat || inRanges privateRanges c.toNat ||
    inRanges markRanges c.toNat

end TemplateMessages.Text

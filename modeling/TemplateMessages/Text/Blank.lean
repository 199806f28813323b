/-!
# White space

White space is the Unicode property White_Space: twenty-five characters in ten
ranges.  Trimming takes a class of characters off one or both ends of a text;
the class is a parameter, because plural rules trim a smaller one than
templates do.
-/

namespace TemplateMessages.Text

/-- The closed ranges of White_Space, ascending and apart. -/
def blankRanges : List (Nat × Nat) :=
  [(0x09, 0x0D), (0x20, 0x20), (0x85, 0x85), (0xA0, 0xA0), (0x1680, 0x1680),
   (0x2000, 0x200A), (0x2028, 0x2029), (0x202F, 0x202F), (0x205F, 0x205F),
   (0x3000, 0x3000)]

def inRanges (ranges : List (Nat × Nat)) (code : Nat) : Bool :=
  ranges.any fun range => range.1 ≤ code && code ≤ range.2

def isBlank (c : Char) : Bool :=
  inRanges blankRanges c.toNat

def stripStart (drop : Char → Bool) (text : List Char) : List Char :=
  text.dropWhile drop

def stripEnd (drop : Char → Bool) (text : List Char) : List Char :=
  text.foldr (fun c rest => if rest.isEmpty && drop c then [] else c :: rest) []

def strip (drop : Char → Bool) (text : List Char) : List Char :=
  stripEnd drop (stripStart drop text)

/-- The text without the white space at its two ends. -/
def trim (text : String) : String :=
  String.ofList (strip isBlank text.toList)

/-- What a scan has met of the current run of blank characters. -/
inductive BlankRun where
  | none
  | single (c : Char)
  | many
deriving DecidableEq, Repr

def BlankRun.written : BlankRun → List Char
  | .none => []
  | .single c => [c]
  | .many => [' ']

def BlankRun.extend : BlankRun → Char → BlankRun
  | .none, c => .single c
  | .single _, _ => .many
  | .many, _ => .many

def collapseFrom (run : BlankRun) : List Char → List Char
  | [] => run.written
  | c :: rest =>
      if isBlank c then collapseFrom (run.extend c) rest
      else run.written ++ c :: collapseFrom .none rest

/-- Every run of two or more blank characters becomes one space; a blank
character that stands alone is kept. -/
def collapseBlanks (text : String) : String :=
  String.ofList (collapseFrom .none text.toList)

@[simp]
theorem stripEnd_nil (drop : Char → Bool) : stripEnd drop [] = [] := rfl

theorem stripEnd_cons (drop : Char → Bool) (c : Char) (rest : List Char) :
    stripEnd drop (c :: rest) =
      if (stripEnd drop rest).isEmpty && drop c then [] else c :: stripEnd drop rest := rfl

end TemplateMessages.Text

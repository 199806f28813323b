/-!
# Glob patterns

In a pattern `?` stands for any character and `*` for any text, slashes
included.  `**` must be a whole component and stands for any number of
directories.  A class in brackets stands for one of its characters, or for any
other one behind an exclamation mark.
-/

namespace TemplateMessages

namespace Glob

/-- A character or a range of characters of a class. -/
structure Range where
  low : Char
  high : Char
deriving DecidableEq, Repr

inductive Token where
  | literal (c : Char)
  | anyChar
  | charClass (excluded : Bool) (ranges : List Range)
  | anyText
  | directories
deriving DecidableEq, Repr

/-- The ranges of a class: a hyphen between two characters makes them bounds. -/
def ranges : List Char → List Range
  | low :: '-' :: high :: rest => ⟨low, high⟩ :: ranges rest
  | c :: rest => ⟨c, c⟩ :: ranges rest
  | [] => []

/-- The members of a class and what follows it.  The first character is a member
whatever it is, so a closing bracket can be one. -/
def classBody? : List Char → Option (List Char × List Char)
  | [] => none
  | first :: rest =>
      let others := rest.takeWhile (· != ']')
      if others.length < rest.length then
        some (first :: others, rest.drop (others.length + 1))
      else none

theorem classBody?_length {text members rest : List Char}
    (h : classBody? text = some (members, rest)) : rest.length < text.length := by
  cases text with
  | nil => simp [classBody?] at h
  | cons first others =>
      simp only [classBody?] at h
      split at h
      · simp only [Option.some.injEq, Prod.mk.injEq] at h
        rw [← h.2]
        simp only [List.length_drop, List.length_cons]
        omega
      · simp at h

/-- A class behind its opening bracket. -/
def charClass? (text : List Char) : Option (Token × List Char) :=
  match text with
  | '!' :: rest =>
      (classBody? rest).map fun found => (.charClass true (ranges found.1), found.2)
  | rest => (classBody? rest).map fun found => (.charClass false (ranges found.1), found.2)

theorem charClass?_length {text rest : List Char} {token : Token}
    (h : charClass? text = some (token, rest)) : rest.length < text.length := by
  unfold charClass? at h
  split at h
  · obtain ⟨found, hfound, heq⟩ := Option.map_eq_some_iff.mp h
    have := classBody?_length hfound
    simp only [Prod.mk.injEq] at heq
    simp only [← heq.2, List.length_cons]
    omega
  · obtain ⟨found, hfound, heq⟩ := Option.map_eq_some_iff.mp h
    have := classBody?_length hfound
    simp only [Prod.mk.injEq] at heq
    simpa only [← heq.2] using this

/-- Reads a pattern; `fresh` says that a component starts here. -/
def readTokens (fresh : Bool) (text : List Char) : Option (List Token) :=
  match text with
  | [] => some []
  | '?' :: rest => (readTokens false rest).map (.anyChar :: ·)
  | '*' :: '*' :: '*' :: _ => none
  | '*' :: '*' :: '/' :: rest =>
      if fresh then (readTokens true rest).map (.directories :: ·) else none
  | ['*', '*'] => if fresh then some [.directories] else none
  | '*' :: '*' :: _ :: _ => none
  | '*' :: rest => (readTokens false rest).map (.anyText :: ·)
  | '[' :: rest =>
      match _ : charClass? rest with
      | some (token, after) => (readTokens false after).map (token :: ·)
      | none => none
  | c :: rest => (readTokens (c == '/') rest).map (.literal c :: ·)
termination_by text.length
decreasing_by
  all_goals first
    | (have shorter := charClass?_length ‹charClass? _ = some _›
       simp only [List.length_cons]
       omega)
    | (simp only [List.length_cons]; omega)

/-- The tokens of a pattern, when it is well formed. -/
def tokens? (pattern : String) : Option (List Token) :=
  readTokens true pattern.toList

/-- Whether a pattern has wildcards; without any it is taken for a path. -/
def hasWildcard (pattern : String) : Bool :=
  pattern.toList.any fun c => c == '*' || c == '?'

def Range.contains (range : Range) (c : Char) : Bool :=
  range.low ≤ c && c ≤ range.high

def Token.accepts (token : Token) (c : Char) : Bool :=
  match token with
  | .literal expected => expected == c
  | .anyChar => true
  | .charClass excluded ranges => ranges.any (·.contains c) != excluded
  | .anyText => false
  | .directories => false

/-- The texts that follow a slash. -/
def belowSlashes : List Char → List (List Char)
  | [] => []
  | c :: rest => if c = '/' then rest :: belowSlashes rest else belowSlashes rest

/-- What any number of directories may leave of a text: all of it, what follows
a slash, or nothing. -/
def belowDirectories (text : List Char) : List (List Char) :=
  text :: (belowSlashes text ++ [[]])

def tails : List Char → List (List Char)
  | [] => [[]]
  | c :: rest => (c :: rest) :: tails rest

/-- Whether the whole text is an instance of the pattern. -/
def accepts : List Token → List Char → Bool
  | [], text => text.isEmpty
  | .anyText :: rest, text => (tails text).any fun left => accepts rest left
  | .directories :: rest, text => (belowDirectories text).any fun left => accepts rest left
  | _ :: _, [] => false
  | token :: rest, c :: text => token.accepts c && accepts rest text

end Glob

end TemplateMessages

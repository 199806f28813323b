import Mathlib.Computability.Language
import Mathlib.Data.List.TakeWhile
import Mathlib.Order.CompletePartialOrder
import TemplateMessages.Plural

/-!
# The pattern of intervals

What an interval of counts looks like is given as a language: a set of counts in
braces, or a pair of bounds in brackets.  A rule starts with an interval when one
of these words stands at its front.  The scan decides this without trying one
word after the other: behind each part of the pattern that may be longer or
shorter comes a character that this part does not have, so the part ends where
its characters do.
-/

namespace TemplateMessages.Plural

open scoped Computability

/-! ## The pattern -/

/-- The words of one character of a class. -/
def oneOf (accepts : Char → Bool) : Language Char :=
  {word | ∃ c, accepts c = true ∧ word = [c]}

def exactly (word : List Char) : Language Char :=
  {word}

def maybe (words : Language Char) : Language Char :=
  1 + words

def blanks : Language Char :=
  (oneOf Text.isBlank)∗

def digits : Language Char :=
  oneOf Text.isDecimalDigit * (oneOf Text.isDecimalDigit)∗

def fraction : Language Char :=
  maybe (exactly ['.'] * digits)

def number : Language Char :=
  maybe (exactly ['-']) * digits * fraction

/-- A set of counts: behind the first number it may hold any characters that sets have. -/
def countSet : Language Char :=
  exactly ['{'] * blanks * maybe (exactly ['-']) * digits * fraction * (oneOf isSetChar)∗ * blanks *
    exactly ['}']

def lowerBound : Language Char :=
  exactly ['-', 'I', 'n', 'f'] + number

def upperBound : Language Char :=
  maybe (exactly ['+']) * exactly ['I', 'n', 'f'] + number

/-- A pair of bounds, each bracket either way round. -/
def boundPair : Language Char :=
  oneOf isBracket * blanks * lowerBound * blanks * exactly [','] * blanks * upperBound * blanks *
    oneOf isBracket

def intervalPattern : Language Char :=
  countSet + boundPair

/-- A rule that starts with an interval of counts. -/
def IsIntervalRule (rule : String) : Prop :=
  ∃ front ∈ intervalPattern, front <+: rule.toList

theorem exactly_mul (first second : List Char) :
    exactly first * exactly second = exactly (first ++ second) :=
  Set.image2_singleton

/-! ## A word in front of a rest -/

/-- A word of the language stands in front of a rest with the property. -/
def Leads (words : Language Char) (Behind : List Char → Prop) (text : List Char) : Prop :=
  ∃ front ∈ words, ∃ rest, front ++ rest = text ∧ Behind rest

section Leads

variable {Behind : List Char → Prop} {accepts : Char → Bool} {text rest : List Char} {c : Char}

theorem leads_mul (first second : Language Char) :
    Leads (first * second) Behind text ↔ Leads first (Leads second Behind) text := by
  constructor
  · rintro ⟨_, ⟨front, hfront, middle, hmiddle, rfl⟩, rest, rfl, hrest⟩
    exact ⟨front, hfront, middle ++ rest, (List.append_assoc _ _ _).symm, middle, hmiddle, rest, rfl,
      hrest⟩
  · rintro ⟨front, hfront, _, rfl, middle, hmiddle, rest, rfl, hrest⟩
    exact ⟨front ++ middle, Language.append_mem_mul hfront hmiddle, rest, List.append_assoc _ _ _,
      hrest⟩

theorem leads_add (first second : Language Char) :
    Leads (first + second) Behind text ↔ Leads first Behind text ∨ Leads second Behind text := by
  simp only [Leads, Language.mem_add, or_and_right, exists_or]

theorem leads_exactly (word : List Char) :
    Leads (exactly word) Behind text ↔ ∃ rest, word ++ rest = text ∧ Behind rest := by
  constructor
  · rintro ⟨_, rfl, hrest⟩
    exact hrest
  · intro hrest
    exact ⟨word, rfl, hrest⟩

theorem leads_word (word : List Char) :
    Leads (exactly word) Behind text ↔ ∃ rest, word.isPrefixOf? text = some rest ∧ Behind rest := by
  simp only [leads_exactly, List.isPrefixOf?_eq_some_iff_append_eq]

theorem leads_oneOf :
    Leads (oneOf accepts) Behind text ↔
      ∃ c rest, c :: rest = text ∧ accepts c = true ∧ Behind rest := by
  constructor
  · rintro ⟨_, ⟨c, hc, rfl⟩, rest, rfl, hrest⟩
    exact ⟨c, rest, rfl, hc, hrest⟩
  · rintro ⟨c, rest, rfl, hc, hrest⟩
    exact ⟨[c], ⟨c, hc, rfl⟩, rest, rfl, hrest⟩

theorem leads_maybe (words : Language Char) :
    Leads (maybe words) Behind text ↔ Behind text ∨ Leads words Behind text := by
  have hnothing : Leads 1 Behind text ↔ Behind text := by
    simp [Leads, Language.mem_one]
  rw [maybe, leads_add, hnothing]

/-- The words of a repeated class are those with all characters in the class. -/
theorem mem_kstar_oneOf {word : List Char} :
    word ∈ (oneOf accepts)∗ ↔ ∀ c ∈ word, accepts c = true := by
  constructor
  · intro hword c hc
    obtain ⟨parts, rfl, hparts⟩ := Language.mem_kstar.mp hword
    obtain ⟨part, hpart, hmem⟩ := List.mem_flatten.mp hc
    obtain ⟨other, hother, rfl⟩ := hparts part hpart
    rwa [List.mem_singleton.mp hmem]
  · intro hword
    refine Language.mem_kstar.mpr ⟨word.map fun c => [c], (List.flatMap_singleton' word).symm, ?_⟩
    intro part hpart
    obtain ⟨c, hc, rfl⟩ := List.mem_map.mp hpart
    exact ⟨c, hword c hc, rfl⟩

/-- A rest with the property never starts with a character of the class. -/
def Stops (accepts : Char → Bool) (Behind : List Char → Prop) : Prop :=
  ∀ c rest, Behind (c :: rest) → accepts c = false

/-- A repeated class takes all its characters when what follows starts with none of them. -/
theorem leads_kstar (hstops : Stops accepts Behind) :
    Leads (oneOf accepts)∗ Behind text ↔ Behind (text.dropWhile accepts) := by
  constructor
  · rintro ⟨front, hfront, rest, rfl, hrest⟩
    rw [List.dropWhile_append_of_pos (mem_kstar_oneOf.mp hfront)]
    cases rest with
    | nil => exact hrest
    | cons c rest =>
        rwa [List.dropWhile_cons_of_neg (ne_true_of_eq_false (hstops c rest hrest))]
  · intro hrest
    exact ⟨text.takeWhile accepts, mem_kstar_oneOf.mpr fun _ => List.mem_takeWhile_imp, _,
      List.takeWhile_append_dropWhile, hrest⟩

end Leads

/-! ## Numbers -/

section Numbers

variable {Behind : List Char → Prop} {text rest : List Char} {c : Char}

/-- The ranges of digits and of white space are apart. -/
theorem isBlank_of_isDecimalDigit (hdigit : Text.isDecimalDigit c = true) :
    Text.isBlank c = false := by
  have hapart : ∀ digit ∈ Text.digitRanges, ∀ blank ∈ Text.blankRanges,
      digit.2 < blank.1 ∨ blank.2 < digit.1 := by
    decide +kernel
  rw [Text.isDecimalDigit, Text.inRanges, List.any_eq_true] at hdigit
  obtain ⟨digit, hmem, hin⟩ := hdigit
  rw [Text.isBlank, Text.inRanges, List.any_eq_false]
  intro blank hblank hboth
  rw [Bool.and_eq_true, decide_eq_true_eq, decide_eq_true_eq] at hin hboth
  have := hapart digit hmem blank hblank
  omega

theorem isDecimalDigit_of_isBlank (hblank : Text.isBlank c = true) :
    Text.isDecimalDigit c = false := by
  by_contra hdigit
  rw [Bool.not_eq_false] at hdigit
  exact absurd hblank (ne_true_of_eq_false (isBlank_of_isDecimalDigit hdigit))

theorem drop_length_takeWhile (accepts : Char → Bool) (text : List Char) :
    text.drop (text.takeWhile accepts).length = text.dropWhile accepts := by
  have hsplit : text.takeWhile accepts ++ text.dropWhile accepts = text :=
    List.takeWhile_append_dropWhile
  nth_rewrite 2 [← hsplit]
  exact List.drop_left

theorem takeWhile_isEmpty (accepts : Char → Bool) (text : List Char) :
    (text.takeWhile accepts).isEmpty = !text.head?.any accepts := by
  cases text with
  | nil => rfl
  | cons c rest => cases hc : accepts c <;> simp [hc]

/-- An optional sign is passed over when what follows it starts with none. -/
theorem leads_sign (hstops : ∀ rest, ¬ Behind ('-' :: rest)) :
    Leads (maybe (exactly ['-'])) Behind text ↔
      Behind (if text.head? == some '-' then text.tail else text) := by
  rw [leads_maybe, leads_exactly]
  cases text with
  | nil => simp
  | cons c rest =>
      by_cases hsign : c = '-'
      · subst hsign
        simp [hstops]
      · simp [hsign, Ne.symm hsign]

theorem leads_digits (hstops : Stops Text.isDecimalDigit Behind) :
    Leads digits Behind text ↔
      text.head?.any Text.isDecimalDigit = true ∧ Behind (text.dropWhile Text.isDecimalDigit) := by
  rw [digits, leads_mul, leads_oneOf]
  simp only [leads_kstar hstops]
  cases text with
  | nil => simp
  | cons c rest => by_cases hdigit : Text.isDecimalDigit c = true <;> simp [hdigit]

/-- What may follow a number: it starts neither with another digit nor with a point. -/
structure EndsNumber (Behind : List Char → Prop) : Prop where
  digit : Stops Text.isDecimalDigit Behind
  point : ∀ rest, ¬ Behind ('.' :: rest)

/-- What is left of a text behind a point and the digits there. -/
def afterFraction (text : List Char) : List Char :=
  match text with
  | '.' :: rest =>
      if rest.head?.any Text.isDecimalDigit then rest.dropWhile Text.isDecimalDigit else text
  | _ => text

theorem afterFraction_point (rest : List Char) :
    afterFraction ('.' :: rest) =
      if rest.head?.any Text.isDecimalDigit then rest.dropWhile Text.isDecimalDigit
      else '.' :: rest := rfl

theorem afterFraction_of_ne (hpoint : ∀ rest, text ≠ '.' :: rest) : afterFraction text = text := by
  unfold afterFraction
  split
  case h_1 rest => exact absurd rfl (hpoint rest)
  case h_2 => rfl

theorem leads_fraction (hends : EndsNumber Behind) :
    Leads fraction Behind text ↔ Behind (afterFraction text) := by
  rw [fraction, leads_maybe, leads_mul, leads_exactly]
  simp only [leads_digits hends.digit]
  by_cases hfirst : ∃ rest, text = '.' :: rest
  · obtain ⟨rest, rfl⟩ := hfirst
    rw [afterFraction_point]
    by_cases hmore : rest.head?.any Text.isDecimalDigit = true <;> simp [hmore, hends.point]
  · rw [afterFraction_of_ne (not_exists.mp hfirst)]
    refine or_iff_left ?_
    rintro ⟨rest, rfl, -⟩
    exact hfirst ⟨rest, rfl⟩

/-- What follows a number: behind its sign and its digits the fraction. -/
theorem afterNumber?_eq (text : List Char) :
    afterNumber? text =
      let unsigned := if text.head? == some '-' then text.tail else text
      if unsigned.head?.any Text.isDecimalDigit then
        some (afterFraction (unsigned.dropWhile Text.isDecimalDigit))
      else none := by
  unfold afterNumber?
  dsimp only
  generalize (if text.head? == some '-' then text.tail else text) = unsigned
  simp only [takeWhile_isEmpty, drop_length_takeWhile]
  cases unsigned.head?.any Text.isDecimalDigit with
  | false => rfl
  | true =>
      generalize unsigned.dropWhile Text.isDecimalDigit = behind
      rw [if_neg (by decide), if_pos rfl]
      split
      case h_1 rest =>
        rw [afterFraction_point]
        cases rest.head?.any Text.isDecimalDigit <;> rfl
      case h_2 hother => rw [afterFraction_of_ne hother]

theorem leads_number (hends : EndsNumber Behind) :
    Leads number Behind text ↔ ∃ rest, afterNumber? text = some rest ∧ Behind rest := by
  have hstops : Stops Text.isDecimalDigit (Leads fraction Behind) := by
    intro c rest hrest
    rw [leads_fraction hends] at hrest
    by_cases hpoint : c = '.'
    · subst hpoint
      decide
    · rw [afterFraction_of_ne fun rest hsame => hpoint (List.cons.inj hsame).1] at hrest
      exact hends.digit c rest hrest
  have hsign : ∀ rest, ¬ Leads digits (Leads fraction Behind) ('-' :: rest) := by
    intro rest hrest
    have hfirst : Text.isDecimalDigit '-' = true := ((leads_digits hstops).mp hrest).1
    exact absurd hfirst (by decide)
  rw [number, mul_assoc, leads_mul, leads_sign (by simpa only [leads_mul] using hsign), leads_mul,
    leads_digits hstops, leads_fraction hends, afterNumber?_eq]
  dsimp only
  generalize (if text.head? == some '-' then text.tail else text) = unsigned
  cases unsigned.head?.any Text.isDecimalDigit <;> simp

theorem ne_of_isBlank {other : Char} (hblank : Text.isBlank c = true)
    (hother : Text.isBlank other = false) : other ≠ c := by
  rintro rfl
  exact absurd hblank (ne_true_of_eq_false hother)

theorem afterNumber?_of_isBlank (hblank : Text.isBlank c = true) :
    afterNumber? (c :: rest) = none := by
  have hsign : c ≠ '-' := (ne_of_isBlank hblank (by decide)).symm
  rw [afterNumber?_eq]
  simp [hsign, isDecimalDigit_of_isBlank hblank]

end Numbers

/-! ## Sets and bounds -/

section Bounds

variable {Behind : List Char → Prop} {text rest : List Char} {c : Char}

theorem oneOf_le {accepts other : Char → Bool} (hle : ∀ c, accepts c = true → other c = true) :
    oneOf accepts ≤ oneOf other := by
  rintro _ ⟨c, hc, rfl⟩
  exact ⟨c, hle c hc, rfl⟩

/-- Behind the first digit a set has nothing but its characters, so the rest of the number and the
blanks in front of the closing brace are among them. -/
theorem digits_mul_set :
    digits * fraction * (oneOf isSetChar)∗ * blanks =
      oneOf Text.isDecimalDigit * (oneOf isSetChar)∗ := by
  have hdigit : oneOf Text.isDecimalDigit ≤ (oneOf isSetChar)∗ :=
    (oneOf_le fun c hc => by simp [isSetChar, hc]).trans le_kstar
  have hblanks : blanks ≤ (oneOf isSetChar)∗ :=
    kstar_mono (oneOf_le fun c hc => by simp [isSetChar, hc])
  have hmore : (oneOf Text.isDecimalDigit)∗ ≤ (oneOf isSetChar)∗ :=
    kstar_mono (oneOf_le fun c hc => by simp [isSetChar, hc])
  have hpoint : exactly ['.'] ≤ (oneOf isSetChar)∗ := by
    refine le_trans ?_ le_kstar
    rintro _ rfl
    exact ⟨'.', by decide, rfl⟩
  have hfraction : fraction ≤ (oneOf isSetChar)∗ := by
    refine add_le one_le_kstar ?_
    calc exactly ['.'] * digits
        ≤ (oneOf isSetChar)∗ * ((oneOf isSetChar)∗ * (oneOf isSetChar)∗) :=
          mul_le_mul' hpoint (mul_le_mul' hdigit hmore)
      _ = (oneOf isSetChar)∗ := by rw [kstar_mul_kstar, kstar_mul_kstar]
  apply le_antisymm
  · calc digits * fraction * (oneOf isSetChar)∗ * blanks
        ≤ oneOf Text.isDecimalDigit * (oneOf isSetChar)∗ * (oneOf isSetChar)∗ * (oneOf isSetChar)∗ *
            (oneOf isSetChar)∗ :=
          mul_le_mul' (mul_le_mul' (mul_le_mul' (mul_le_mul' le_rfl hmore) hfraction) le_rfl) hblanks
      _ = oneOf Text.isDecimalDigit * (oneOf isSetChar)∗ := by
          simp only [mul_assoc, kstar_mul_kstar]
  · calc oneOf Text.isDecimalDigit * (oneOf isSetChar)∗
        = oneOf Text.isDecimalDigit * 1 * 1 * (oneOf isSetChar)∗ * 1 := by simp only [mul_one]
      _ ≤ digits * fraction * (oneOf isSetChar)∗ * blanks :=
          mul_le_mul' (mul_le_mul' (mul_le_mul' (mul_le_mul' le_rfl one_le_kstar)
            le_self_add) le_rfl) one_le_kstar

theorem head?_eq_some_iff_leads :
    text.head? = some c ↔ Leads (exactly [c]) (fun _ => True) text := by
  rw [leads_exactly, List.head?_eq_some_iff]
  simp [eq_comm]

theorem leads_setEnd :
    Leads ((oneOf isSetChar)∗ * exactly ['}']) (fun _ => True) text ↔
      (text.dropWhile isSetChar).head? = some '}' := by
  have hstops : Stops isSetChar (Leads (exactly ['}']) fun _ => True) := by
    intro c rest hrest
    obtain rfl : c = '}' := Option.some.inj (head?_eq_some_iff_leads.mpr hrest)
    decide
  rw [leads_mul, leads_kstar hstops, head?_eq_some_iff_leads]

/-- What stands in a set from the first digit on. -/
def setMembers : Language Char :=
  oneOf Text.isDecimalDigit * ((oneOf isSetChar)∗ * exactly ['}'])

theorem leads_setMembers :
    Leads setMembers (fun _ => True) text ↔
      text.head?.any Text.isDecimalDigit = true ∧ (text.dropWhile isSetChar).head? = some '}' := by
  rw [setMembers, leads_mul, leads_oneOf]
  simp only [leads_setEnd]
  cases text with
  | nil => simp
  | cons c rest =>
      by_cases hdigit : Text.isDecimalDigit c = true
      · have hset : isSetChar c = true := by simp [isSetChar, hdigit]
        simp [hdigit, hset]
      · simp [hdigit]

theorem leads_signed_setMembers :
    Leads (maybe (exactly ['-']) * setMembers) (fun _ => True) text ↔
      Leads setMembers (fun _ => True) (if text.head? == some '-' then text.tail else text) := by
  rw [leads_mul, leads_sign]
  intro rest hrest
  have hfirst : Text.isDecimalDigit '-' = true := (leads_setMembers.mp hrest).1
  exact absurd hfirst (by decide)

theorem isCountSet_iff :
    isCountSet text = true ↔
      Leads (blanks * (maybe (exactly ['-']) * setMembers)) (fun _ => True) text := by
  have hstops : Stops Text.isBlank (Leads (maybe (exactly ['-']) * setMembers) fun _ => True) := by
    intro c rest hrest
    rw [leads_signed_setMembers] at hrest
    by_cases hsign : c = '-'
    · subst hsign
      decide
    · rw [if_neg (by simpa using hsign)] at hrest
      exact isBlank_of_isDecimalDigit (leads_setMembers.mp hrest).1
  rw [leads_mul, blanks, leads_kstar hstops, leads_signed_setMembers, leads_setMembers, isCountSet,
    Bool.and_eq_true]
  exact and_congr_right' beq_iff_eq

theorem leads_countSet :
    Leads countSet (fun _ => True) text ↔ ∃ rest, '{' :: rest = text ∧ isCountSet rest = true := by
  have hpattern : countSet =
      exactly ['{'] * (blanks * (maybe (exactly ['-']) * setMembers)) := by
    rw [countSet, setMembers, ← mul_assoc (oneOf Text.isDecimalDigit), ← digits_mul_set]
    simp only [mul_assoc]
  simp only [isCountSet_iff]
  rw [hpattern, leads_mul, leads_exactly]
  rfl

/-! ### Pairs of bounds -/

/-- Blanks and the bracket at the end of a pair. -/
def pairEnd : Language Char :=
  blanks * oneOf isBracket

theorem leads_pairEnd :
    Leads pairEnd (fun _ => True) text ↔ (skipBlanks text).head?.any isBracket = true := by
  have hbracket : ∀ text, Leads (oneOf isBracket) (fun _ => True) text ↔
      text.head?.any isBracket = true := by
    intro text
    rw [leads_oneOf]
    cases text <;> simp
  have hstops : Stops Text.isBlank (Leads (oneOf isBracket) fun _ => True) := by
    intro c rest hrest
    have hc : isBracket c = true := (hbracket _).mp hrest
    rw [isBracket, Bool.or_eq_true, beq_iff_eq, beq_iff_eq] at hc
    rcases hc with rfl | rfl <;> decide
  rw [pairEnd, leads_mul, blanks, leads_kstar hstops, hbracket]
  rfl

theorem isPrefixOf?_cons_of_ne {first : Char} (hne : first ≠ c) (word : List Char) :
    (first :: word).isPrefixOf? (c :: rest) = none := by
  simp [List.isPrefixOf?, hne]

theorem leads_lowerBound (hends : EndsNumber Behind) :
    Leads lowerBound Behind text ↔ ∃ rest, afterLowerBound? text = some rest ∧ Behind rest := by
  rw [lowerBound, leads_add, leads_word, leads_number hends, afterLowerBound?]
  cases hword : ['-', 'I', 'n', 'f'].isPrefixOf? text with
  | none => simp
  | some rest =>
      -- A number does not start as the word for infinity does.
      have hnumber : afterNumber? text = none := by
        rw [← List.isPrefixOf?_eq_some_iff_append_eq.mp hword]
        rfl
      simp [hnumber]

theorem leads_upperBound (hends : EndsNumber Behind) :
    Leads upperBound Behind text ↔ ∃ rest, afterUpperBound? text = some rest ∧ Behind rest := by
  have hsigned : Leads (maybe (exactly ['+']) * exactly ['I', 'n', 'f']) Behind text ↔
      (∃ rest, ['I', 'n', 'f'].isPrefixOf? text = some rest ∧ Behind rest) ∨
        ∃ rest, ['+', 'I', 'n', 'f'].isPrefixOf? text = some rest ∧ Behind rest := by
    rw [maybe, add_mul, one_mul, exactly_mul, leads_add, leads_word, leads_word]
    rfl
  rw [upperBound, leads_add, hsigned, leads_number hends, afterUpperBound?]
  cases hplus : ['+', 'I', 'n', 'f'].isPrefixOf? text with
  | some rest =>
      obtain rfl := List.isPrefixOf?_eq_some_iff_append_eq.mp hplus
      have hnumber : afterNumber? (['+', 'I', 'n', 'f'] ++ rest) = none := rfl
      have hword : ['I', 'n', 'f'].isPrefixOf? (['+', 'I', 'n', 'f'] ++ rest) = none := rfl
      rw [hnumber, hword]
      simp
  | none =>
      cases hword : ['I', 'n', 'f'].isPrefixOf? text with
      | some rest =>
          have hnumber : afterNumber? text = none := by
            rw [← List.isPrefixOf?_eq_some_iff_append_eq.mp hword]
            rfl
          simp [hnumber]
      | none => simp

theorem stops_lowerBound (hends : EndsNumber Behind) :
    Stops Text.isBlank (Leads lowerBound Behind) := by
  intro c rest hrest
  by_contra hblank
  rw [Bool.not_eq_false] at hblank
  obtain ⟨behind, hbehind, -⟩ := (leads_lowerBound hends).mp hrest
  rw [afterLowerBound?, isPrefixOf?_cons_of_ne (ne_of_isBlank hblank (by decide)),
    afterNumber?_of_isBlank hblank] at hbehind
  cases hbehind

theorem stops_upperBound (hends : EndsNumber Behind) :
    Stops Text.isBlank (Leads upperBound Behind) := by
  intro c rest hrest
  by_contra hblank
  rw [Bool.not_eq_false] at hblank
  obtain ⟨behind, hbehind, -⟩ := (leads_upperBound hends).mp hrest
  rw [afterUpperBound?, isPrefixOf?_cons_of_ne (ne_of_isBlank hblank (by decide)),
    isPrefixOf?_cons_of_ne (ne_of_isBlank hblank (by decide)),
    afterNumber?_of_isBlank hblank] at hbehind
  cases hbehind

/-- A number may be followed by blanks in front of a mark that is neither a digit nor a point. -/
theorem endsNumber_of_skipBlanks {mark : Char → Bool}
    (hbehind : ∀ text, Behind text → (skipBlanks text).head?.any mark = true)
    (hdigit : ∀ c, mark c = true → Text.isDecimalDigit c = false) (hpoint : mark '.' = false) :
    EndsNumber Behind where
  digit := by
    intro c rest hrest
    by_cases hblank : Text.isBlank c = true
    · exact isDecimalDigit_of_isBlank hblank
    · have hmark := hbehind _ hrest
      rw [skipBlanks, List.dropWhile_cons_of_neg hblank] at hmark
      exact hdigit c hmark
  point := by
    intro rest hrest
    have hmark : mark '.' = true := hbehind _ hrest
    exact absurd hmark (ne_true_of_eq_false hpoint)

theorem endsNumber_pairEnd : EndsNumber (Leads pairEnd fun _ => True) := by
  refine endsNumber_of_skipBlanks (fun text => leads_pairEnd.mp) ?_ (by decide)
  intro c hc
  rw [isBracket, Bool.or_eq_true, beq_iff_eq, beq_iff_eq] at hc
  rcases hc with rfl | rfl <;> decide

/-- What stands in a pair behind its comma. -/
def pairTail : Language Char :=
  blanks * (upperBound * pairEnd)

theorem leads_pairTail :
    Leads pairTail (fun _ => True) text ↔
      ∃ upper, afterUpperBound? (skipBlanks text) = some upper ∧
        (skipBlanks upper).head?.any isBracket = true := by
  have hstops : Stops Text.isBlank (Leads (upperBound * pairEnd) fun _ => True) := by
    intro c rest hrest
    exact stops_upperBound endsNumber_pairEnd c rest ((leads_mul _ _).mp hrest)
  rw [pairTail, leads_mul, blanks, leads_kstar hstops, leads_mul, leads_upperBound endsNumber_pairEnd]
  simp only [leads_pairEnd]
  rfl

/-- What stands in a pair behind its lower bound. -/
def pairMiddle : Language Char :=
  blanks * (exactly [','] * pairTail)

theorem leads_pairMiddle :
    Leads pairMiddle (fun _ => True) text ↔
      ∃ rest, skipBlanks text = ',' :: rest ∧ Leads pairTail (fun _ => True) rest := by
  have hcomma : ∀ text, Leads (exactly [','] * pairTail) (fun _ => True) text ↔
      ∃ rest, text = ',' :: rest ∧ Leads pairTail (fun _ => True) rest := by
    intro text
    rw [leads_mul, leads_exactly]
    simp [eq_comm]
  have hstops : Stops Text.isBlank (Leads (exactly [','] * pairTail) fun _ => True) := by
    intro c rest hrest
    obtain ⟨behind, hbehind, -⟩ := (hcomma _).mp hrest
    rw [(List.cons.inj hbehind).1]
    decide
  rw [pairMiddle, leads_mul, blanks, leads_kstar hstops, hcomma]
  rfl

theorem endsNumber_pairMiddle : EndsNumber (Leads pairMiddle fun _ => True) := by
  refine @endsNumber_of_skipBlanks _ (· == ',') (fun text htext => ?_) ?_ (by decide)
  · obtain ⟨rest, hrest, -⟩ := leads_pairMiddle.mp htext
    rw [hrest]
    rfl
  · intro c hc
    rw [eq_of_beq hc]
    decide

theorem isBoundPair_iff :
    isBoundPair text = true ↔ Leads (blanks * (lowerBound * pairMiddle)) (fun _ => True) text := by
  have hstops : Stops Text.isBlank (Leads (lowerBound * pairMiddle) fun _ => True) := by
    intro c rest hrest
    exact stops_lowerBound endsNumber_pairMiddle c rest ((leads_mul _ _).mp hrest)
  rw [leads_mul, blanks, leads_kstar hstops, leads_mul, leads_lowerBound endsNumber_pairMiddle]
  simp only [leads_pairMiddle, leads_pairTail]
  change _ ↔ ∃ lower, afterLowerBound? (skipBlanks text) = some lower ∧ _
  unfold isBoundPair
  cases afterLowerBound? (skipBlanks text) with
  | none => simp
  | some lower =>
      simp only [Option.map_some, Option.some.injEq, exists_eq_left']
      split
      case h_1 rest hcomma =>
        obtain hcomma := Option.some.inj hcomma
        simp only [hcomma, List.cons.injEq, true_and, exists_eq_left']
        cases afterUpperBound? (skipBlanks rest) with
        | none => simp
        | some upper => cases hupper : skipBlanks upper <;> simp [hupper]
      case h_2 hother =>
        refine iff_of_false Bool.false_ne_true ?_
        rintro ⟨rest, hcomma, -⟩
        exact hother rest (congrArg some hcomma)

theorem leads_boundPair :
    Leads boundPair (fun _ => True) text ↔
      ∃ c rest, c :: rest = text ∧ isBracket c = true ∧ isBoundPair rest = true := by
  have hpattern : boundPair = oneOf isBracket * (blanks * (lowerBound * pairMiddle)) := by
    simp only [boundPair, pairMiddle, pairTail, pairEnd, mul_assoc]
  simp only [isBoundPair_iff]
  rw [hpattern, leads_mul, leads_oneOf]

end Bounds

/-- The scan finds an interval exactly where a word of the pattern stands in front. -/
theorem isInterval_iff (rule : String) : isInterval rule.toList = true ↔ IsIntervalRule rule := by
  have hleads : IsIntervalRule rule ↔ Leads intervalPattern (fun _ => True) rule.toList := by
    simp only [IsIntervalRule, Leads, List.IsPrefix, and_true]
  rw [hleads, intervalPattern, leads_add, leads_countSet, leads_boundPair]
  cases rule.toList with
  | nil => simp [isInterval]
  | cons c rest =>
      by_cases hset : c = '{'
      · subst hset
        simp [isInterval, isBracket]
      by_cases hopened : c = '['
      · subst hopened
        simp [isInterval, isBracket]
      by_cases hclosed : c = ']'
      · subst hclosed
        simp [isInterval, isBracket]
      · simp [isInterval, isBracket, hset, hopened, hclosed, Ne.symm hset]

instance : DecidablePred IsIntervalRule := fun rule => decidable_of_iff _ (isInterval_iff rule)

end TemplateMessages.Plural

import Mathlib.Algebra.Ring.Parity
import Mathlib.Data.List.DropRight
import TemplateMessages.Proofs.QuotedTexts

/-!
# Escaped texts between quotes

An escaped text can stand between quotes: each quote in it is escaped, and its
last backslash is itself escaped or escapes something, so the quote behind it is
bare.  Whether a quote is bare shows in the run of backslashes in front of it:
they escape each other in pairs, and an odd one escapes the quote.
-/

namespace TemplateMessages.Catalogue.Pot

/-- What may stand between quotes: a backslash escapes the character behind it, and no quote is
bare. -/
inductive Sealed : List Char → Prop
  | nil : Sealed []
  | escaped (c : Char) {rest : List Char} : Sealed rest → Sealed ('\\' :: c :: rest)
  | plain {c : Char} {rest : List Char} : c ≠ '\\' → c ≠ '"' → Sealed rest → Sealed (c :: rest)

/-- The text from behind an opening quote up to the quote that closes it, and what is left behind
that one. -/
def splitLiteral : List Char → Option (List Char × List Char)
  | [] => none
  | '"' :: rest => some ([], rest)
  | '\\' :: c :: rest => (splitLiteral rest).map fun split => ('\\' :: c :: split.1, split.2)
  | c :: rest => (splitLiteral rest).map fun split => (c :: split.1, split.2)

/-- How many backslashes stand at the end of a text. -/
def endingBackslashes (text : List Char) : Nat :=
  (text.rtakeWhile (· == '\\')).length

/-! ## Runs of backslashes -/

/-- The run of backslashes that a scan has come to, from one of some length on. -/
def runAfter (length : Nat) (text : List Char) : Nat :=
  text.foldl (fun length c => if c = '\\' then length + 1 else 0) length

theorem runAfter_cons (length : Nat) (c : Char) (rest : List Char) :
    runAfter length (c :: rest) = runAfter (if c = '\\' then length + 1 else 0) rest := rfl

theorem endingBackslashes_eq_runAfter (text : List Char) :
    endingBackslashes text = runAfter 0 text := by
  induction text using List.reverseRecOn with
  | nil => rfl
  | append_singleton front c ih =>
      rw [runAfter, List.foldl_concat, ← runAfter, ← ih, endingBackslashes, endingBackslashes]
      by_cases hbackslash : c = '\\'
      · rw [List.rtakeWhile_concat_pos _ _ _ (by simpa using hbackslash), List.length_append,
          List.length_singleton, if_pos hbackslash]
      · rw [List.rtakeWhile_concat_neg _ _ _ (by simpa using hbackslash), List.length_nil,
          if_neg hbackslash]

namespace Sealed

variable {text front rest : List Char} {length : Nat}

theorem append (hfront : Sealed front) (hrest : Sealed rest) : Sealed (front ++ rest) := by
  induction hfront with
  | nil => exact hrest
  | escaped c _ ih => exact .escaped c ih
  | plain hbackslash hquote _ ih => exact .plain hbackslash hquote ih

/-- A backslash and what it escapes leave a run even. -/
theorem even_pair (hlength : Even length) (c : Char) :
    Even (if c = '\\' then length + 1 + 1 else 0) := by
  split
  case isTrue => exact hlength.add_one.add_one
  case isFalse => exact Even.zero

theorem even_runAfter (htext : Sealed text) (hlength : Even length) :
    Even (runAfter length text) := by
  induction htext generalizing length with
  | nil => exact hlength
  | escaped c _ ih =>
      rw [runAfter_cons, if_pos rfl, runAfter_cons]
      exact ih (even_pair hlength c)
  | @plain c rest hbackslash _ _ ih =>
      rw [runAfter_cons, if_neg hbackslash]
      exact ih Even.zero

/-- In front of a quote the run is odd. -/
theorem odd_runAfter (htext : Sealed (front ++ '"' :: rest)) (hlength : Even length) :
    Odd (runAfter length front) := by
  generalize hwhole : front ++ '"' :: rest = whole at htext
  induction htext generalizing front length with
  | nil => exact absurd hwhole (by simp)
  | escaped c _ ih =>
      rcases List.append_eq_cons_iff.mp hwhole with ⟨rfl, hquote⟩ | ⟨front, rfl, hbehind⟩
      · exact absurd (List.cons.inj hquote).1 (by decide)
      rcases List.append_eq_cons_iff.mp hbehind.symm with ⟨rfl, -⟩ | ⟨front, rfl, hrest⟩
      · exact hlength.add_one
      · rw [runAfter_cons, if_pos rfl, runAfter_cons]
        exact ih (even_pair hlength c) hrest.symm
  | plain hbackslash hquote _ ih =>
      rcases List.append_eq_cons_iff.mp hwhole with ⟨rfl, hbare⟩ | ⟨front, rfl, hrest⟩
      · exact absurd (List.cons.inj hbare).1.symm hquote
      · rw [runAfter_cons, if_neg hbackslash]
        exact ih Even.zero hrest.symm

/-- A literal closes at the quote behind its text. -/
theorem splitLiteral_append (htext : Sealed text) (rest : List Char) :
    splitLiteral (text ++ '"' :: rest) = some (text, rest) := by
  induction htext with
  | nil => rfl
  | escaped c _ ih =>
      rw [List.cons_append, List.cons_append, splitLiteral, ih]
      rfl
  | plain hbackslash hquote _ ih =>
      rw [List.cons_append, splitLiteral.eq_def]
      simp [hbackslash, ih]

end Sealed

/-! ## Escaped texts -/

theorem octalDigit_plain {value : Nat} (hlt : value < 8) :
    octalDigit value ≠ '\\' ∧ octalDigit value ≠ '"' := by
  have hall : ∀ digit < 8, octalDigit digit ≠ '\\' ∧ octalDigit digit ≠ '"' := by decide
  exact hall value hlt

theorem sealed_escapeChar (c : Char) : Sealed (escapeChar c) := by
  rcases escapeChar_cases c with ⟨letter, hescape, -, -⟩ | ⟨-, hescape⟩ |
    ⟨hescape, hquote, hbackslash, -⟩
  · rw [hescape]
    exact .escaped letter .nil
  · obtain ⟨hmiddle, hmiddleQuote⟩ := octalDigit_plain (Nat.mod_lt (c.toNat / 8) (by decide))
    obtain ⟨hlow, hlowQuote⟩ := octalDigit_plain (Nat.mod_lt c.toNat (by decide))
    rw [hescape]
    exact .escaped _ (.plain hmiddle hmiddleQuote (.plain hlow hlowQuote .nil))
  · rw [hescape]
    exact .plain hbackslash hquote .nil

theorem sealed_escape (text : String) : Sealed (escape text).toList := by
  have hlist : ∀ chars : List Char, Sealed (chars.flatMap escapeChar) := by
    intro chars
    induction chars with
    | nil => exact .nil
    | cons c rest ih =>
        rw [List.flatMap_cons]
        exact (sealed_escapeChar c).append ih
  rw [escape, String.toList_ofList]
  exact hlist text.toList

/-- Escaping loses nothing. -/
theorem escape_injective : Function.Injective escape := by
  intro first second heq
  have htexts : some first.toList = some second.toList := by
    rw [← unescape?_escape first, ← unescape?_escape second, heq]
  exact String.toList_inj.mp (Option.some.inj htexts)

/-- An escaped text has no control character, its quotes stand behind an odd number of backslashes
and its end behind an even one; so a literal closes where its text ends, and what stands in it is
read as the text again. -/
theorem escape_closes_and_decodes :
    (∀ text : String,
      (∀ c ∈ (escape text).toList, 0x20 ≤ c.toNat) ∧
      (∀ front rest, (escape text).toList = front ++ '"' :: rest → Odd (endingBackslashes front)) ∧
      Even (endingBackslashes (escape text).toList) ∧
      (∀ rest, splitLiteral ((escape text).toList ++ '"' :: rest) =
        some ((escape text).toList, rest)) ∧
      unescape? (escape text).toList = some text.toList) ∧
    Function.Injective escape := by
  refine ⟨fun text => ⟨fun c => not_low_of_mem_escape, fun front rest hsplit => ?_, ?_,
    (sealed_escape text).splitLiteral_append, unescape?_escape text⟩, escape_injective⟩
  · have hsealed := sealed_escape text
    rw [hsplit] at hsealed
    rw [endingBackslashes_eq_runAfter]
    exact hsealed.odd_runAfter Even.zero
  · rw [endingBackslashes_eq_runAfter]
    exact (sealed_escape text).even_runAfter Even.zero

end TemplateMessages.Catalogue.Pot

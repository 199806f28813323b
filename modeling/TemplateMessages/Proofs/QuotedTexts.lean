import TemplateMessages.Catalogue.Pot

/-!
# Reading quoted texts

Inside quotes a backslash starts an escape, as in C: a letter for a control
character, the quote or the backslash itself, or three octal digits.  A bare
quote ends the text, so it cannot stand inside.  Every text that has been escaped
is read back, and it stays on its line.
-/

namespace TemplateMessages.Catalogue.Pot

/-- The character that an escape of one letter stands for. -/
def letterChar? : Char → Option Char
  | '"' => some '"'
  | '\\' => some '\\'
  | 'a' => some '\x07'
  | 'b' => some '\x08'
  | 't' => some '\t'
  | 'n' => some '\n'
  | 'v' => some '\x0b'
  | 'f' => some '\x0c'
  | 'r' => some '\r'
  | _ => none

def octalValue? (c : Char) : Option Nat :=
  if '0' ≤ c ∧ c ≤ '7' then some (c.toNat - '0'.toNat) else none

/-- The character of three octal digits. -/
def octalChar? (first second third : Char) : Option Char :=
  match octalValue? first, octalValue? second, octalValue? third with
  | some high, some middle, some low => some (Char.ofNat (64 * high + 8 * middle + low))
  | _, _, _ => none

/-- The text that stands between quotes, when what stands there is one. -/
def unescape? : List Char → Option (List Char)
  | [] => some []
  | '"' :: _ => none
  | '\\' :: first :: rest =>
      match letterChar? first, rest with
      | some c, rest => (unescape? rest).map (c :: ·)
      | none, second :: third :: rest =>
          (octalChar? first second third).bind fun c => (unescape? rest).map (c :: ·)
      | none, _ => none
  | ['\\'] => none
  | c :: rest => (unescape? rest).map (c :: ·)

/-- The three digits of a control character write its number. -/
theorem octalChar?_octalDigit {value : Nat} (hlt : value < 0x20) :
    octalChar? (octalDigit (value / 64)) (octalDigit (value / 8 % 8)) (octalDigit (value % 8)) =
      some (Char.ofNat value) := by
  have hall : ∀ number < 0x20, octalChar? (octalDigit (number / 64))
      (octalDigit (number / 8 % 8)) (octalDigit (number % 8)) = some (Char.ofNat number) := by
    decide
  exact hall value hlt

/-- How a character is written: as a letter behind a backslash, as its number, or as itself. -/
theorem escapeChar_cases (c : Char) :
    (∃ letter, escapeChar c = ['\\', letter] ∧ letterChar? letter = some c ∧ 0x20 ≤ letter.toNat) ∨
    (c.toNat < 0x20 ∧ escapeChar c =
      ['\\', octalDigit (c.toNat / 64), octalDigit (c.toNat / 8 % 8), octalDigit (c.toNat % 8)]) ∨
    (escapeChar c = [c] ∧ c ≠ '"' ∧ c ≠ '\\' ∧ 0x20 ≤ c.toNat) := by
  by_cases hself : c = '"' ∨ c = '\\'
  · refine .inl ⟨c, if_pos hself, ?_⟩
    rcases hself with rfl | rfl <;> decide
  by_cases halert : c = '\x07'
  · subst halert
    exact .inl ⟨'a', by decide⟩
  by_cases hback : c = '\x08'
  · subst hback
    exact .inl ⟨'b', by decide⟩
  by_cases htab : c = '\t'
  · subst htab
    exact .inl ⟨'t', by decide⟩
  by_cases hline : c = '\n'
  · subst hline
    exact .inl ⟨'n', by decide⟩
  by_cases hvertical : c = '\x0b'
  · subst hvertical
    exact .inl ⟨'v', by decide⟩
  by_cases hfeed : c = '\x0c'
  · subst hfeed
    exact .inl ⟨'f', by decide⟩
  by_cases hreturn : c = '\r'
  · subst hreturn
    exact .inl ⟨'r', by decide⟩
  by_cases hlow : c.toNat < 0x20
  · refine .inr (.inl ⟨hlow, ?_⟩)
    simp only [escapeChar, if_neg hself, if_neg halert, if_neg hback, if_neg htab, if_neg hline,
      if_neg hvertical, if_neg hfeed, if_neg hreturn, if_pos hlow]
  · rw [not_or] at hself
    refine .inr (.inr ⟨?_, hself.1, hself.2, Nat.le_of_not_lt hlow⟩)
    simp only [escapeChar, if_neg (not_or.mpr hself), if_neg halert, if_neg hback, if_neg htab,
      if_neg hline, if_neg hvertical, if_neg hfeed, if_neg hreturn, if_neg hlow]

/-- An escaped character is read as itself. -/
theorem unescape?_escapeChar (c : Char) (rest : List Char) :
    unescape? (escapeChar c ++ rest) = (unescape? rest).map (c :: ·) := by
  rcases escapeChar_cases c with ⟨letter, hescape, hletter, -⟩ | ⟨hlow, hescape⟩ |
    ⟨hescape, hquote, hbackslash, -⟩
  · rw [hescape, List.cons_append, List.singleton_append, unescape?]
    exact hletter
  · have hzero : octalDigit (c.toNat / 64) = '0' := by
      rw [Nat.div_eq_of_lt (by omega)]
      rfl
    have hdigits := octalChar?_octalDigit hlow
    rw [hzero] at hdigits hescape
    have hnone : letterChar? '0' = none := rfl
    rw [hescape]
    simp only [List.cons_append, List.nil_append, unescape?, hnone]
    rw [hdigits, Char.ofNat_toNat, Option.bind_some]
  · rw [hescape, List.singleton_append, unescape?.eq_def]
    simp [hbackslash]

/-- Escaping can be undone. -/
theorem unescape?_escape (text : String) : unescape? (escape text).toList = some text.toList := by
  have hlist : ∀ chars : List Char, unescape? (chars.flatMap escapeChar) = some chars := by
    intro chars
    induction chars with
    | nil => rfl
    | cons c rest ih => rw [List.flatMap_cons, unescape?_escapeChar, ih, Option.map_some]
  rw [escape, String.toList_ofList]
  exact hlist text.toList

/-- What is written for a character has no control character. -/
theorem not_low_of_mem_escapeChar {c written : Char} (hmem : written ∈ escapeChar c) :
    0x20 ≤ written.toNat := by
  rcases escapeChar_cases c with ⟨letter, hescape, -, hletter⟩ | ⟨hlow, hescape⟩ |
    ⟨hescape, -, -, hself⟩
  · rw [hescape] at hmem
    rcases List.mem_cons.mp hmem with rfl | hmem
    · decide
    · rw [List.mem_singleton.mp hmem]
      exact hletter
  · have hall : (List.range 0x20).all (fun number => ['\\', octalDigit (number / 64),
        octalDigit (number / 8 % 8), octalDigit (number % 8)].all fun written =>
          0x20 ≤ written.toNat) = true := by
      decide
    have hdigits := List.all_eq_true.mp hall c.toNat (List.mem_range.mpr hlow)
    rw [hescape] at hmem
    exact of_decide_eq_true (List.all_eq_true.mp hdigits written hmem)
  · rw [hescape, List.mem_singleton] at hmem
    rw [hmem]
    exact hself

theorem not_low_of_mem_escape {text : String} {c : Char} (hmem : c ∈ (escape text).toList) :
    0x20 ≤ c.toNat := by
  rw [escape, String.toList_ofList] at hmem
  obtain ⟨source, -, hwritten⟩ := List.mem_flatMap.mp hmem
  exact not_low_of_mem_escapeChar hwritten

theorem newline_notMem_escape (text : String) : '\n' ∉ (escape text).toList :=
  fun hmem => absurd (not_low_of_mem_escape hmem) (by decide)

end TemplateMessages.Catalogue.Pot

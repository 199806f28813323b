import TemplateMessages.Proofs.TagWalk

/-!
# Where tokens end

A name or a number ends in front of what cannot go on with it: a text that starts
neither with a character of a name nor with the point that a number may have.  So it
is the same in front of any such text, a space or a closing delimiter, and a string
ends at its closing quote whatever follows.  Behind a mark anything may follow.
-/

namespace TemplateMessages.Template

/-- A text that ends a name or a number in front of it. -/
def Delimits (text : List Char) : Prop :=
  ∀ c ∈ text.head?, isNameChar c = false ∧ c ≠ '.'

theorem delimits_space (text : List Char) : Delimits (' ' :: text) := by
  simp [Delimits, isNameChar]

theorem isDigit_eq_false_of_isNameChar {c : Char} (hc : isNameChar c = false) :
    c.isDigit = false := by
  by_contra hdigit
  rw [isNameChar_of_isDigit (by simpa using hdigit)] at hc
  cases hc

theorem takeWhile_append_of_head {keep : Char → Bool} {after : List Char}
    (hafter : ∀ c ∈ after.head?, keep c = false) (front : List Char) :
    (front ++ after).takeWhile keep = front.takeWhile keep := by
  induction front with
  | nil =>
      cases after with
      | nil => rfl
      | cons stop rest => exact List.takeWhile_cons_of_neg (ne_true_of_eq_false (hafter stop rfl))
  | cons c front ih => rw [List.cons_append, List.takeWhile_cons, List.takeWhile_cons, ih]

/-- The number that a sign and two parts write. -/
def decimalLexeme (negative : Bool) (whole fraction : List Char) : Except Fault Lexeme :=
  let raw := (if negative then ['-'] else []) ++ whole ++
    (if fraction.isEmpty then [] else '.' :: fraction)
  let number := if fraction.isEmpty then Number.ofInteger? negative whole
    else Number.ofFraction? negative whole fraction
  match number with
  | some value => .ok (.number value, raw.length)
  | none => .error (.invalidNumber (String.ofList raw))

theorem numberLexeme_dash (text : List Char) :
    numberLexeme ('-' :: text) =
      decimalLexeme true (text.takeWhile Char.isDigit) (fractionFront text) := rfl

theorem numberLexeme_of_ne_dash {text : List Char} (hsign : text.head? ≠ some '-') :
    numberLexeme text =
      decimalLexeme false (text.takeWhile Char.isDigit) (fractionFront text) := by
  unfold numberLexeme
  rw [beq_eq_false_iff_ne.mpr hsign]
  rfl

namespace Delimits

variable {after : List Char} (hafter : Delimits after)

include hafter

theorem takeWhile_isNameChar (front : List Char) :
    (front ++ after).takeWhile isNameChar = front.takeWhile isNameChar :=
  takeWhile_append_of_head (fun c hc => (hafter c hc).1) front

theorem takeWhile_isDigit (front : List Char) :
    (front ++ after).takeWhile Char.isDigit = front.takeWhile Char.isDigit :=
  takeWhile_append_of_head (fun c hc => isDigit_eq_false_of_isNameChar (hafter c hc).1) front

theorem head?_any_isDigit (front : List Char) :
    (front ++ after).head?.any Char.isDigit = front.head?.any Char.isDigit := by
  cases front with
  | cons => rfl
  | nil =>
      cases after with
      | nil => rfl
      | cons stop rest => exact isDigit_eq_false_of_isNameChar (hafter stop rfl).1

theorem fractionFront_append (front : List Char) :
    fractionFront (front ++ after) = fractionFront front := by
  have hwhole := (List.takeWhile_prefix Char.isDigit (l := front)).length_le
  rw [fractionFront, fractionFront, hafter.takeWhile_isDigit,
    List.drop_append_of_le_length hwhole]
  generalize front.drop (front.takeWhile Char.isDigit).length = behind
  match behind with
  | [] =>
      cases after with
      | nil => rfl
      | cons stop rest =>
          have hpoint : stop ≠ '.' := (hafter stop rfl).2
          simp only [List.nil_append]
          split
          case h_1 heq => exact absurd (List.cons.inj heq).1 hpoint
          case h_2 => rfl
  | c :: rest =>
      by_cases hc : c = '.'
      · subst hc
        exact hafter.takeWhile_isDigit rest
      · simp [hc]

theorem numberLexeme_append (c : Char) (front : List Char) :
    numberLexeme (c :: (front ++ after)) = numberLexeme (c :: front) := by
  by_cases hsign : c = '-'
  · subst hsign
    rw [numberLexeme_dash, numberLexeme_dash, hafter.takeWhile_isDigit, hafter.fractionFront_append]
  · have hhead : ∀ text : List Char, (c :: text).head? ≠ some '-' := by simp [hsign]
    rw [numberLexeme_of_ne_dash (hhead _), numberLexeme_of_ne_dash (hhead _), ← List.cons_append,
      hafter.takeWhile_isDigit, hafter.fractionFront_append]

/-- Whether a token is found or refused, what ends a name makes no difference to it; only a string
may go on behind it. -/
theorem lexeme_append {c : Char} (hquote : isQuote c = false) (front : List Char) :
    lexeme c (front ++ after) = lexeme c front := by
  have hstring : ¬ (c == '\'' || c == '"') = true := by
    rw [← isQuote, hquote]
    exact Bool.false_ne_true
  rw [lexeme, lexeme, ← List.cons_append, hafter.takeWhile_isNameChar, List.cons_append,
    hafter.head?_any_isDigit, hafter.numberLexeme_append, if_neg hstring, if_neg hstring]

end Delimits

/-! ## Strings and all other tokens -/

/-- A string ends at its closing quote, whatever follows. -/
theorem Quoted.exists_value {quote : Char} {front : List Char} (hquoted : Quoted quote front)
    (hquote : quote ≠ '\\') :
    ∃ value, ∀ after, stringBody quote (front ++ after) = some (value, front.length) := by
  induction hquoted with
  | close =>
      refine ⟨[], fun after => ?_⟩
      rw [List.singleton_append, stringBody, if_pos rfl]
      · rfl
      · exact fun hc => absurd hc hquote
      · exact fun _ _ hc => absurd hc hquote
  | escaped c _ ih =>
      obtain ⟨value, hvalue⟩ := ih
      refine ⟨unescape c :: value, fun after => ?_⟩
      rw [List.cons_append, List.cons_append, stringBody, hvalue]
      rfl
  | @plain c _ hbackslash hc _ ih =>
      obtain ⟨value, hvalue⟩ := ih
      refine ⟨c :: value, fun after => ?_⟩
      rw [List.cons_append, stringBody, if_neg hc, hvalue]
      · rfl
      · exact fun h => absurd h hbackslash
      · exact fun _ _ h => absurd h hbackslash

theorem Quoted.exists_lexeme {quote : Char} {front : List Char} (hquoted : Quoted quote front)
    (hquote : isQuote quote = true) :
    ∃ value, ∀ after, lexeme quote (front ++ after) = .ok (.str value, front.length + 1) := by
  have hkind : ¬ isNameStart quote = true ∧ ¬ quote.isDigit = true ∧ quote ≠ '-' ∧ quote ≠ '\\' := by
    rcases isQuote_iff.mp hquote with rfl | rfl <;> decide
  obtain ⟨hname, hdigit, hdash, hbackslash⟩ := hkind
  have hstring : (quote == '\'' || quote == '"') = true := hquote
  obtain ⟨value, hvalue⟩ := hquoted.exists_value hbackslash
  refine ⟨String.ofList value, fun after => ?_⟩
  rw [lexeme, if_neg hname, if_neg (by simp [hdigit, hdash]), if_pos hstring, hvalue]

/-- A token that ends in front of a space ends in front of any text that ends a name. -/
theorem lexeme_append {c : Char} {front after : List Char} {token : TokenKind}
    (hlexeme : lexeme c (front ++ [' ']) = .ok (token, front.length + 1))
    (hafter : Delimits after) : lexeme c (front ++ after) = .ok (token, front.length + 1) := by
  cases hquote : isQuote c with
  | false =>
      rw [(delimits_space []).lexeme_append hquote] at hlexeme
      rwa [hafter.lexeme_append hquote]
  | true =>
      obtain ⟨quoted, tail, htext, hlength, -, hword⟩ := exists_word_of_lexeme hlexeme
      obtain rfl : quoted = front := (List.append_inj htext.symm (Nat.succ.inj hlength).symm).1
      cases hword with
      | bare hbare =>
          rw [hquote] at hbare
          cases hbare
      | literal _ hquoted =>
          obtain ⟨value, hvalue⟩ := hquoted.exists_lexeme hquote
          rw [hvalue] at hlexeme ⊢
          exact hlexeme

theorem mem_of_isPunctuation {mark : Char} (hmark : isPunctuation mark = true) :
    mark ∈ ['(', ')', '[', ']', '{', '}', ',', ':', '|', '.', '='] :=
  List.contains_iff_mem.mp hmark

/-- A mark is a token whatever follows. -/
theorem lexeme_mark {mark : Char} (hmark : isPunctuation mark = true) (after : List Char) :
    lexeme mark after = .ok (.punct mark, 1) := by
  have hmem := mem_of_isPunctuation hmark
  simp only [List.mem_cons, List.not_mem_nil, or_false] at hmem
  rcases hmem with rfl | rfl | rfl | rfl | rfl | rfl | rfl | rfl | rfl | rfl | rfl
  all_goals rfl

theorem eq_of_lexeme_mark {c mark : Char} {rest : List Char} {length : Nat}
    (hlexeme : lexeme c rest = .ok (.punct mark, length)) :
    c = mark ∧ length = 1 ∧ isPunctuation mark = true := by
  unfold lexeme at hlexeme
  split at hlexeme
  case isTrue => cases hlexeme
  case isFalse =>
    split at hlexeme
    case isTrue =>
      unfold numberLexeme at hlexeme
      dsimp only at hlexeme
      split at hlexeme <;> cases hlexeme
    case isFalse =>
      split at hlexeme
      case isTrue => split at hlexeme <;> cases hlexeme
      case isFalse =>
        split at hlexeme
        case isTrue hmark =>
          obtain ⟨hkind, rfl⟩ := Prod.mk.inj (Except.ok.inj hlexeme)
          obtain rfl := TokenKind.punct.inj hkind
          exact ⟨rfl, rfl, hmark⟩
        case isFalse => cases hlexeme

/-- No token starts with white space. -/
theorem isBlank_of_lexeme {c : Char} {rest : List Char} {found : Lexeme}
    (hlexeme : lexeme c rest = .ok found) : Text.isBlank c = false := by
  unfold lexeme at hlexeme
  split at hlexeme
  case isTrue hname =>
    exact isBlank_eq_false (graphic_of_isNameChar (isNameChar_of_isNameStart hname))
  case isFalse =>
    split at hlexeme
    case isTrue hnumber =>
      rw [Bool.or_eq_true, Bool.and_eq_true, beq_iff_eq] at hnumber
      rcases hnumber with hdigit | ⟨rfl, -⟩
      · exact isBlank_eq_false (graphic_of_isNameChar (isNameChar_of_isDigit hdigit))
      · rfl
    case isFalse =>
      split at hlexeme
      case isTrue hquote =>
        rcases isQuote_iff.mp hquote with rfl | rfl <;> rfl
      case isFalse =>
        split at hlexeme
        case isTrue hmark =>
          have hmarks : ['(', ')', '[', ']', '{', '}', ',', ':', '|', '.', '='].all
              (!Text.isBlank ·) = true := by decide
          exact (Bool.not_eq_true' _).mp (List.all_eq_true.mp hmarks c (mem_of_isPunctuation hmark))
        case isFalse => cases hlexeme

end TemplateMessages.Template

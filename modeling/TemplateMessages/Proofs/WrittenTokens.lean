import TemplateMessages.Proofs.Separators
import TemplateMessages.Proofs.TokenLines

/-!
# Written tokens

The tokens of a print tag, its delimiters among them, are written with a space
between one and the next, a string in quotes of either kind.  The walk over what
is written finds the same tokens again.  The space ends each of them; behind the
opening delimiter it keeps a minus sign from asking for trimming, and in front of
the closing one it keeps a brace from closing the tag too early.
-/

namespace TemplateMessages.Template

/-! ## How tokens are written -/

inductive Quote where
  | single
  | double
deriving DecidableEq, Repr

namespace Quote

def mark : Quote → Char
  | .single => '\''
  | .double => '"'

/-- In a string a backslash stands in front of a backslash and of the quote; any other character
stands for itself. -/
def escaped (quote : Quote) (c : Char) : List Char :=
  if c = '\\' ∨ c = quote.mark then ['\\', c] else [c]

end Quote

/-- A letter or an underscore and then letters, digits and underscores, all of ASCII. -/
def isIdentifier (word : String) : Bool :=
  word.toList.head?.any isNameStart && word.toList.all isNameChar

namespace TokenKind

/-- How a token is written, a string in the given quotes. -/
def written (quote : Quote) : TokenKind → List Char
  | .text data => data.toList
  | .varStart => ['{', '{']
  | .varEnd => ['}', '}']
  | .blockStart => ['{', '%']
  | .blockEnd => ['%', '}']
  | .name word => word.toList
  | .number value => value.text.toList
  | .str value => quote.mark :: (value.toList.flatMap quote.escaped ++ [quote.mark])
  | .punct mark => [mark]
  | .eof => []

/-- Whether a token is an identifier, a number that a signed word holds, a string or a mark. -/
def isPlain : TokenKind → Bool
  | .name word => isIdentifier word
  | .number (.integer value) => -Number.signedBound ≤ value && value < Number.signedBound
  | .str _ => true
  | .punct mark => isPunctuation mark
  | _ => false

end TokenKind

/-- The print tag around some tokens: the delimiters and the tokens, with a single space between each
and the next.  Every token may have quotes of its own. -/
def printTag (quotes : Nat → Quote) (kinds : List TokenKind) : String :=
  String.ofList ([' '].intercalate
    ((.varStart :: (kinds ++ [.varEnd])).mapIdx fun index kind => kind.written (quotes index)))

/-! ## The walk over one token -/

/-- What the walk skips it only counts lines in. -/
theorem scan_skip_add (place : Place) (skip line : Nat) (front rest : List Char) :
    scan place (front.length + skip) line (front ++ rest) =
      scan place skip (line + countLineFeeds front) rest := by
  induction front generalizing line with
  | nil => rw [List.length_nil, Nat.zero_add]; rfl
  | cons c front ih =>
      rw [List.length_cons, Nat.add_right_comm, List.cons_append, scan, ih, next_add_countLineFeeds]

theorem scan_skip (place : Place) (line : Nat) (front rest : List Char) :
    scan place front.length line (front ++ rest) =
      scan place 0 (line + countLineFeeds front) rest :=
  scan_skip_add place 0 line front rest

/-- A text that is one token when a space follows: its first character starts neither white space
nor the end of a print tag. -/
structure LexesAs (token : TokenKind) (c : Char) (front : List Char) : Prop where
  blank : Text.isBlank c = false
  closer : c = '}' → front = []
  dash : c = '-' → front.head? ≠ some '}'
  lexeme : ∀ more, lexeme c (front ++ ' ' :: more) = .ok (token, front.length + 1)

theorem LexesAs.scan_eq {token : TokenKind} {c : Char} {front : List Char}
    (hlexes : LexesAs token c front) (start line : Nat) (more : List Char) :
    scan (.tag .print start) 0 line (c :: (front ++ ' ' :: more)) =
      (scan (.tag .print start) 0 (line + countLineFeeds (c :: front)) more).map
        (⟨token, line⟩ :: ·) := by
  have hcloser : TagKind.print.closer.isPrefixOf (c :: (front ++ ' ' :: more)) = false := by
    by_cases hbrace : c = '}'
    · rw [hlexes.closer hbrace]
      subst hbrace
      rfl
    · simp [TagKind.closer, List.isPrefixOf, Ne.symm hbrace]
  have hdash : ¬ (c = '-' ∧ TagKind.print.closer.isPrefixOf (front ++ ' ' :: more) = true) := by
    rintro ⟨hminus, hprefix⟩
    have hfront := hlexes.dash hminus
    cases front with
    | nil => cases hprefix
    | cons next front =>
        obtain ⟨hbrace, -⟩ : '}' = next ∧ _ := by
          simpa [TagKind.closer, List.isPrefixOf] using hprefix
        exact hfront (hbrace ▸ rfl)
  rw [scan]
  dsimp only
  rw [if_neg (ne_true_of_eq_false hlexes.blank), if_neg (ne_true_of_eq_false hcloser), if_neg hdash,
    hlexes.lexeme more]
  dsimp only
  rw [Nat.add_sub_cancel, scan_skip, next_add_countLineFeeds]
  rfl

/-! ## Each kind of token -/

theorem isBlank_eq_false {c : Char} (hgraphic : 0x20 < c.toNat ∧ c.toNat < 0x7F) :
    Text.isBlank c = false := by
  simp only [Text.isBlank, Text.inRanges, Text.blankRanges, List.any_cons, List.any_nil,
    Bool.or_eq_false_iff, Bool.and_eq_false_iff, decide_eq_false_iff_not, and_true]
  omega

theorem lexesAs_punct {mark : Char} (hmark : isPunctuation mark = true) :
    LexesAs (.punct mark) mark [] := by
  have hmem : mark ∈ ['(', ')', '[', ']', '{', '}', ',', ':', '|', '.', '='] :=
    List.contains_iff_mem.mp hmark
  simp only [List.mem_cons, List.not_mem_nil, or_false] at hmem
  rcases hmem with rfl | rfl | rfl | rfl | rfl | rfl | rfl | rfl | rfl | rfl | rfl
  all_goals exact ⟨by decide, fun _ => rfl, nofun, fun _ => rfl⟩

/-! ### Names -/

theorem isAlpha_iff {c : Char} :
    c.isAlpha = true ↔ (65 ≤ c.toNat ∧ c.toNat ≤ 90) ∨ (97 ≤ c.toNat ∧ c.toNat ≤ 122) := by
  have hcases : c.isAlpha = (decide (c.val ≥ 'A'.val ∧ c.val ≤ 'Z'.val) ||
      (decide (c.val ≥ 'a'.val) && decide (c.val ≤ 'z'.val))) := rfl
  rw [hcases, Bool.or_eq_true, Bool.and_eq_true, decide_eq_true_eq, decide_eq_true_eq,
    decide_eq_true_eq]
  rfl

theorem isDigit_iff {c : Char} : c.isDigit = true ↔ 48 ≤ c.toNat ∧ c.toNat ≤ 57 := by
  rw [Char.isDigit, Bool.and_eq_true, decide_eq_true_eq, decide_eq_true_eq]
  rfl

theorem graphic_of_isNameChar {c : Char} (hname : isNameChar c = true) :
    0x20 < c.toNat ∧ c.toNat < 0x7F := by
  rw [isNameChar, Char.isAlphanum, Bool.or_eq_true, Bool.or_eq_true, isAlpha_iff, isDigit_iff,
    beq_iff_eq] at hname
  rcases hname with (hletter | hdigit) | rfl
  · omega
  · omega
  · decide

theorem isNameChar_of_isNameStart {c : Char} (hstart : isNameStart c = true) :
    isNameChar c = true := by
  simp only [isNameStart, isNameChar, Char.isAlphanum, Bool.or_eq_true] at hstart ⊢
  exact hstart.imp_left Or.inl

theorem isIdentifier_iff {word : String} :
    isIdentifier word = true ↔ ∃ c front, word.toList = c :: front ∧ isNameStart c = true ∧
      ∀ next ∈ front, isNameChar next = true := by
  unfold isIdentifier
  cases word.toList with
  | nil => simp
  | cons c front =>
      simp only [List.head?_cons, Option.any_some, List.all_cons, Bool.and_eq_true, List.all_eq_true,
        List.cons.injEq, ↓existsAndEq, true_and, and_congr_right_iff,
        and_iff_right_iff_imp]
      exact fun hstart _ => isNameChar_of_isNameStart hstart

theorem lexesAs_name {c : Char} {front : List Char} (hstart : isNameStart c = true)
    (hfront : ∀ next ∈ front, isNameChar next = true) :
    LexesAs (.name (String.ofList (c :: front))) c front where
  blank := isBlank_eq_false (graphic_of_isNameChar (isNameChar_of_isNameStart hstart))
  closer := by
    rintro rfl
    cases hstart
  dash := by
    rintro rfl
    cases hstart
  lexeme := by
    intro more
    rw [lexeme, if_pos hstart, List.takeWhile_cons_of_pos (isNameChar_of_isNameStart hstart),
      takeWhile_append_stop hfront rfl more]
    rfl

/-! ### Strings -/

/-- A string ends at its own quote, and every character of it is read back. -/
theorem stringBody_escaped (quote : Quote) (value more : List Char) :
    stringBody quote.mark (value.flatMap quote.escaped ++ quote.mark :: more) =
      some (value, (value.flatMap quote.escaped).length + 1) := by
  have hquote : quote.mark ≠ '\\' := by cases quote <;> decide
  induction value with
  | nil => simp [stringBody, hquote]
  | cons c value ih =>
      rw [List.flatMap_cons, List.append_assoc]
      by_cases hescaped : c = '\\' ∨ c = quote.mark
      · have hkept : unescape c = c := by
          rcases hescaped with rfl | rfl
          · rfl
          · cases quote <;> rfl
        rw [Quote.escaped, if_pos hescaped, List.cons_append, List.cons_append, List.nil_append,
          stringBody, ih, hkept]
        simp
      · obtain ⟨hbackslash, hmark⟩ := not_or.mp hescaped
        rw [Quote.escaped, if_neg hescaped, List.cons_append, List.nil_append,
          stringBody, if_neg hmark, ih]
        · simp
        · simp [hbackslash]
        · simp [hbackslash]

theorem lexesAs_str (quote : Quote) (value : String) :
    LexesAs (.str value) quote.mark (value.toList.flatMap quote.escaped ++ [quote.mark]) where
  blank := by cases quote <;> rfl
  closer := by cases quote <;> nofun
  dash := by cases quote <;> nofun
  lexeme := by
    intro more
    have hstart : ¬ isNameStart quote.mark = true := by cases quote <;> decide
    have hquote : (quote.mark == '\'' || quote.mark == '"') = true := by cases quote <;> rfl
    have hnumber : ¬ (quote.mark.isDigit || quote.mark == '-' &&
        (value.toList.flatMap quote.escaped ++ quote.mark :: ' ' :: more).head?.any Char.isDigit) =
          true := by
      cases quote <;> simp [Quote.mark]
    rw [List.append_assoc, List.singleton_append, List.length_append, List.length_singleton, lexeme,
      if_neg hstart, if_neg hnumber, if_pos hquote, stringBody_escaped]
    dsimp only
    rw [String.ofList_toList]

/-! ### Numbers -/

theorem isNameStart_of_isDigit {c : Char} (hdigit : c.isDigit = true) : isNameStart c = false := by
  rw [isDigit_iff] at hdigit
  rw [← Bool.not_eq_true, isNameStart, Bool.or_eq_true, isAlpha_iff, beq_iff_eq]
  rintro (hletter | rfl)
  · omega
  · exact absurd hdigit (by decide)

theorem numberLexeme_unsigned {digits : List Char} {value : Number}
    (hdigits : ∀ c ∈ digits, c.isDigit = true) (hvalue : Number.ofInteger? false digits = some value)
    (more : List Char) :
    numberLexeme (digits ++ ' ' :: more) = .ok (.number value, digits.length) := by
  have hwhole : (digits ++ ' ' :: more).takeWhile Char.isDigit = digits :=
    takeWhile_append_stop hdigits rfl more
  have hsign : ((digits ++ ' ' :: more).head? == some '-') = false := by
    cases digits with
    | nil => rfl
    | cons c digits =>
        have hdigit := hdigits c List.mem_cons_self
        have hne : c ≠ '-' := by
          rintro rfl
          cases hdigit
        simpa using hne
  unfold numberLexeme
  rw [hsign]
  simp [hwhole, hvalue]

theorem numberLexeme_negative {digits : List Char} {value : Number}
    (hdigits : ∀ c ∈ digits, c.isDigit = true) (hvalue : Number.ofInteger? true digits = some value)
    (more : List Char) :
    numberLexeme ('-' :: (digits ++ ' ' :: more)) = .ok (.number value, digits.length + 1) := by
  have hwhole : (digits ++ ' ' :: more).takeWhile Char.isDigit = digits :=
    takeWhile_append_stop hdigits rfl more
  unfold numberLexeme
  simp [hwhole, hvalue]

section Digits

variable {c : Char} {front : List Char} {value : Number}

theorem lexesAs_unsigned (hdigits : ∀ digit ∈ c :: front, digit.isDigit = true)
    (hvalue : Number.ofInteger? false (c :: front) = some value) :
    LexesAs (.number value) c front where
  blank := by
    apply isBlank_eq_false
    apply graphic_of_isNameChar
    simp [isNameChar, Char.isAlphanum, hdigits c List.mem_cons_self]
  closer := by
    rintro rfl
    exact absurd (hdigits _ List.mem_cons_self) (by decide)
  dash := by
    rintro rfl
    exact absurd (hdigits _ List.mem_cons_self) (by decide)
  lexeme := by
    intro more
    have hdigit := hdigits c List.mem_cons_self
    rw [lexeme, if_neg (ne_true_of_eq_false (isNameStart_of_isDigit hdigit)),
      if_pos (by simp [hdigit])]
    exact numberLexeme_unsigned hdigits hvalue more

theorem lexesAs_negative (hdigits : ∀ digit ∈ c :: front, digit.isDigit = true)
    (hvalue : Number.ofInteger? true (c :: front) = some value) :
    LexesAs (.number value) '-' (c :: front) where
  blank := rfl
  closer := nofun
  dash := by
    intro _ hbrace
    obtain rfl : c = '}' := Option.some.inj hbrace
    exact absurd (hdigits _ List.mem_cons_self) (by decide)
  lexeme := by
    intro more
    rw [lexeme, if_neg (by decide), if_pos (by simp [hdigits c List.mem_cons_self])]
    exact numberLexeme_negative hdigits hvalue more

end Digits

/-- The digits of a number, the first of them apart. -/
theorem exists_digits (number : Nat) : ∃ c front, Nat.toDigits 10 number = c :: front ∧
    (∀ digit ∈ c :: front, digit.isDigit = true) ∧ Text.digitsValue (c :: front) = number := by
  obtain ⟨c, front, hdigits⟩ : ∃ c front, Nat.toDigits 10 number = c :: front :=
    List.exists_cons_of_ne_nil Nat.toDigits_ne_nil
  refine ⟨c, front, hdigits, ?_, ?_⟩
  · rw [← hdigits]
    intro digit hdigit
    exact Nat.isDigit_of_mem_toDigits (by decide) (by decide) hdigit
  · rw [← hdigits]
    exact Nat.ofDigitChars_ten_toDigits

theorem lexesAs_integer {value : Int}
    (hvalue : -Number.signedBound ≤ value ∧ value < Number.signedBound) :
    ∃ c front, (toString value).toList = c :: front ∧ LexesAs (.number (.integer value)) c front := by
  cases value with
  | ofNat number =>
      obtain ⟨c, front, hwritten, hdigits, hnumber⟩ := exists_digits number
      have hread : Number.ofInteger? false (c :: front) = some (.integer (.ofNat number)) := by
        have hlt : number < Number.signedBound := Int.ofNat_lt.mp hvalue.2
        simp [Number.ofInteger?, hnumber, hlt]
      have htext : toString (Int.ofNat number) = number.repr := rfl
      refine ⟨c, front, ?_, lexesAs_unsigned hdigits hread⟩
      rw [htext, Nat.toList_repr, hwritten]
  | negSucc number =>
      obtain ⟨c, front, hwritten, hdigits, hnumber⟩ := exists_digits (number + 1)
      have hread : Number.ofInteger? true (c :: front) = some (.integer (.negSucc number)) := by
        have hle : number + 1 ≤ Number.signedBound := by omega
        rw [Number.ofInteger?, hnumber, if_pos rfl, if_pos hle]
        rfl
      have htext : toString (Int.negSucc number) = "-" ++ (number + 1).repr := rfl
      refine ⟨'-', c :: front, ?_, lexesAs_negative hdigits hread⟩
      rw [htext, String.toList_append, Nat.toList_repr, hwritten]
      rfl

theorem exists_lexesAs {kind : TokenKind} (hplain : kind.isPlain = true) (quote : Quote) :
    ∃ c front, kind.written quote = c :: front ∧ LexesAs kind c front := by
  cases kind with
  | name word =>
      obtain ⟨c, front, hword, hstart, hfront⟩ := isIdentifier_iff.mp hplain
      obtain rfl : String.ofList (c :: front) = word := by rw [← hword, String.ofList_toList]
      exact ⟨c, front, hword, lexesAs_name hstart hfront⟩
  | number value =>
      cases value with
      | integer value => exact lexesAs_integer (by simpa [TokenKind.isPlain] using hplain)
      | float => cases hplain
  | str value => exact ⟨_, _, rfl, lexesAs_str quote value⟩
  | punct mark => exact ⟨mark, [], rfl, lexesAs_punct hplain⟩
  | _ => cases hplain

/-! ## The walk over a print tag -/

/-- Plain tokens, each with a space behind it, are found up to the end of the tag. -/
theorem scan_written {kinds : List TokenKind} (hplain : ∀ kind ∈ kinds, kind.isPlain = true)
    (quotes : Nat → Quote) (start line : Nat) :
    ∃ tokens endLine,
      scan (.tag .print start) 0 line
          ((kinds.mapIdx fun index kind => kind.written (quotes index)).flatMap (· ++ [' ']) ++
            ['}', '}']) =
        .ok (tokens ++ [⟨.varEnd, endLine⟩, ⟨.eof, endLine⟩]) ∧
      tokens.map Token.kind = kinds := by
  induction kinds generalizing quotes line with
  | nil => exact ⟨[], line, rfl, rfl⟩
  | cons kind kinds ih =>
      obtain ⟨hkind, hkinds⟩ := List.forall_mem_cons.mp hplain
      obtain ⟨c, front, hwritten, hlexes⟩ := exists_lexesAs hkind (quotes 0)
      obtain ⟨tokens, endLine, hscan, htokens⟩ :=
        ih hkinds (fun index => quotes (index + 1)) (line + countLineFeeds (c :: front))
      refine ⟨⟨kind, line⟩ :: tokens, endLine, ?_, by rw [List.map_cons, htokens]⟩
      rw [List.mapIdx_cons, List.flatMap_cons, hwritten, List.append_assoc, List.append_assoc,
        List.cons_append, List.singleton_append, hlexes.scan_eq, hscan]
      rfl

/-- The tokens of a print tag are those that it was written from, between its delimiters. -/
theorem tokenize_printTag {kinds : List TokenKind} (hplain : ∀ kind ∈ kinds, kind.isPlain = true)
    (quotes : Nat → Quote) :
    ∃ tokens endLine,
      tokenize (printTag quotes kinds) =
        .ok (⟨.varStart, 1⟩ :: (tokens ++ [⟨.varEnd, endLine⟩, ⟨.eof, endLine⟩])) ∧
      tokens.map Token.kind = kinds := by
  obtain ⟨tokens, endLine, hscan, htokens⟩ :=
    scan_written hplain (fun index => quotes (index + 1)) 1 1
  refine ⟨tokens, endLine, ?_, htokens⟩
  rw [tokenize, printTag, String.toList_ofList, ← List.cons_append, List.mapIdx_concat,
    intercalate_concat, List.mapIdx_cons, List.flatMap_cons, List.append_assoc]
  calc
    _ = (scan (.tag .print 1) 0 1
          ((kinds.mapIdx fun index kind => kind.written (quotes (index + 1))).flatMap (· ++ [' ']) ++
            ['}', '}'])).map (⟨.varStart, 1⟩ :: ·) := rfl
    _ = _ := by
      rw [hscan]
      rfl

end TemplateMessages.Template

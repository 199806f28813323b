import TemplateMessages.Proofs.WrittenTokens

/-!
# Tags in a source

A tag opens with a brace and the character that tells its kind, perhaps with a
dash, and is closed by the first closing delimiter behind that, one in a string
literal aside.  A comment has no string literals.  The text in front of a tag ends
where the first opener starts, also when its own last brace would make an opener
with the tag's.
-/

namespace TemplateMessages.Template

/-! ## Openers -/

/-- The character behind the brace that opens a tag. -/
def TagKind.mark : TagKind → Char
  | .print => '{'
  | .block => '%'
  | .comment => '#'

/-- A tag opens at the front of a text. -/
def OpensTag (text : List Char) : Prop :=
  ∃ kind : TagKind, ['{', kind.mark] <+: text

/-- No tag opens in a text, as it stands in front of another. -/
def Plain (run rest : List Char) : Prop :=
  ∀ back, back <:+ run → back ≠ [] → ¬ OpensTag (back ++ rest)

theorem TagKind.ofMark?_eq_some_iff {c : Char} {kind : TagKind} :
    TagKind.ofMark? c = some kind ↔ c = kind.mark := by
  constructor
  · intro hmark
    unfold TagKind.ofMark? at hmark
    split at hmark
    case h_1 => exact Option.some.inj hmark ▸ rfl
    case h_2 => exact Option.some.inj hmark ▸ rfl
    case h_3 => exact Option.some.inj hmark ▸ rfl
    case h_4 => cases hmark
  · rintro rfl
    cases kind <;> rfl

theorem opens?_eq_some_iff {c : Char} {rest : List Char} {kind : TagKind} :
    opens? c rest = some kind ↔ ['{', kind.mark] <+: c :: rest := by
  unfold opens?
  split
  case isTrue hc =>
    subst hc
    cases rest with
    | nil => simp
    | cons next rest =>
        simp only [List.head?_cons, Option.bind_some, TagKind.ofMark?_eq_some_iff,
          List.cons_prefix_cons, List.nil_prefix, and_true, true_and]
        exact eq_comm
  case isFalse hc =>
    refine iff_of_false nofun ?_
    rw [List.cons_prefix_cons]
    exact fun hstarts => hc hstarts.1.symm

theorem opens?_eq_none_iff {c : Char} {rest : List Char} :
    opens? c rest = none ↔ ¬ OpensTag (c :: rest) := by
  rw [Option.eq_none_iff_forall_ne_some, OpensTag, not_exists]
  exact forall_congr' fun kind => not_congr opens?_eq_some_iff

theorem plain_nil (rest : List Char) : Plain [] rest :=
  fun _ hback hne => absurd (List.suffix_nil.mp hback) hne

theorem plain_cons_iff {c : Char} {run rest : List Char} :
    Plain (c :: run) rest ↔ ¬ OpensTag (c :: (run ++ rest)) ∧ Plain run rest := by
  constructor
  · intro hplain
    exact ⟨hplain _ List.suffix_rfl (List.cons_ne_nil _ _),
      fun back hback => hplain back (hback.trans (List.suffix_cons c run))⟩
  · rintro ⟨hfirst, hrest⟩ back hback hne
    rcases List.suffix_cons_iff.mp hback with rfl | hback
    · exact hfirst
    · exact hrest back hback hne

theorem Plain.drop {run rest : List Char} (hplain : Plain run rest) (n : Nat) :
    Plain (run.drop n) rest :=
  fun back hback => hplain back (hback.trans (List.drop_suffix n run))

theorem plain_of_notMem {run : List Char} (hrun : '{' ∉ run) (rest : List Char) : Plain run rest := by
  rintro back hback hne ⟨kind, hopener⟩
  obtain ⟨c, others, rfl⟩ := List.exists_cons_of_ne_nil hne
  obtain rfl := (List.cons_prefix_cons.mp hopener).1
  exact hrun (hback.mem List.mem_cons_self)

/-- A text is plain, or it is so up to its first tag. -/
theorem plain_or_exists_tag (text : List Char) :
    Plain text [] ∨ ∃ run, ∃ kind : TagKind, ∃ behind, text = run ++ '{' :: kind.mark :: behind ∧
      Plain run ('{' :: kind.mark :: behind) := by
  induction text with
  | nil => exact .inl (plain_nil _)
  | cons c rest ih =>
      by_cases hfirst : OpensTag (c :: rest)
      · obtain ⟨kind, behind, hbehind⟩ := hfirst
        obtain ⟨rfl, rfl⟩ := List.cons.inj hbehind
        exact .inr ⟨[], kind, behind, rfl, plain_nil _⟩
      · rcases ih with hplain | ⟨run, kind, behind, rfl, hplain⟩
        · exact .inl (plain_cons_iff.mpr ⟨by rwa [List.append_nil], hplain⟩)
        · exact .inr ⟨c :: run, kind, behind, rfl, plain_cons_iff.mpr ⟨hfirst, hplain⟩⟩

/-- A text is split in front of its first tag. -/
theorem splitTag_append {run rest : List Char} (hplain : Plain run rest) :
    splitTag (run ++ rest) = (run ++ (splitTag rest).1, (splitTag rest).2) := by
  induction run with
  | nil => rfl
  | cons c run ih =>
      obtain ⟨hfirst, hrun⟩ := plain_cons_iff.mp hplain
      rw [List.cons_append, splitTag, opens?_eq_none_iff.mpr hfirst, ih hrun]
      rfl

theorem splitTag_opener (kind : TagKind) (behind : List Char) :
    splitTag ('{' :: kind.mark :: behind) = ([], some (kind, behind)) := by
  cases kind <;> rfl

/-! ## String literals and closing delimiters -/

def isQuote (c : Char) : Bool :=
  c == '\'' || c == '"'

theorem isQuote_iff {c : Char} : isQuote c = true ↔ c = '\'' ∨ c = '"' := by
  simp [isQuote]

/-- A string literal behind its opening quote: a backslash takes the next character along, whatever
it is, and the first other quote of the kind ends it. -/
inductive Quoted (quote : Char) : List Char → Prop
  | close : Quoted quote [quote]
  | escaped (c : Char) {rest : List Char} : Quoted quote rest → Quoted quote ('\\' :: c :: rest)
  | plain {c : Char} {rest : List Char} :
      c ≠ '\\' → c ≠ quote → Quoted quote rest → Quoted quote (c :: rest)

/-- A text in front of a closing delimiter in which the delimiter does not start before, other than
in a string literal. -/
inductive Unclosed (kind : TagKind) : List Char → Prop
  | nil : Unclosed kind []
  | plain {c : Char} {rest : List Char} :
      (kind ≠ .comment → isQuote c = false) → ¬ kind.closer <+: c :: (rest ++ kind.closer) →
      Unclosed kind rest → Unclosed kind (c :: rest)
  | literal {quote : Char} {front rest : List Char} :
      kind ≠ .comment → isQuote quote = true → Quoted quote front → Unclosed kind rest →
      Unclosed kind (quote :: (front ++ rest))

def openingDash (opened : Bool) : List Char :=
  if opened then ['-'] else []

/-- Without quotes and without what a closing delimiter starts with nothing closes early. -/
theorem unclosed_of_all {kind : TagKind} {inside : List Char}
    (hinside : inside.all (fun c => !isQuote c && kind.closer.head? != some c) = true) :
    Unclosed kind inside := by
  induction inside with
  | nil => exact .nil
  | cons c rest ih =>
      simp only [List.all_cons, Bool.and_eq_true, Bool.not_eq_true', bne_iff_ne] at hinside
      obtain ⟨⟨hquote, hcloser⟩, hrest⟩ := hinside
      refine .plain (fun _ => hquote) ?_ (ih (by simpa using hrest))
      intro hstarts
      cases kind <;> exact hcloser (congrArg some (List.cons_prefix_cons.mp hstarts).1)

/-- A tag as it stands in a source: what its delimiters enclose, and whether the opener has a dash.
A dash that belongs to the opener is not the closing delimiter's as well. -/
structure SourceTag where
  kind : TagKind
  opensWithDash : Bool
  inside : List Char
  noDash : opensWithDash = false → inside.head? ≠ some '-'

namespace SourceTag

def opener (tag : SourceTag) : List Char :=
  '{' :: tag.kind.mark :: openingDash tag.opensWithDash

def text (tag : SourceTag) : List Char :=
  tag.opener ++ (tag.inside ++ tag.kind.closer)

def closesWithDash (tag : SourceTag) : Bool :=
  tag.inside.getLast? == some '-'

/-- The tag ends at the first closing delimiter behind its opener, string literals aside. -/
def Complete (tag : SourceTag) : Prop :=
  Unclosed tag.kind tag.inside

end SourceTag

theorem exists_openingDash (behind : List Char) :
    ∃ opened enclosed, behind = openingDash opened ++ enclosed ∧
      (opened = false → enclosed.head? ≠ some '-') := by
  by_cases hdash : behind.head? = some '-'
  · obtain ⟨enclosed, rfl⟩ := List.head?_eq_some_iff.mp hdash
    exact ⟨true, enclosed, rfl, nofun⟩
  · exact ⟨false, behind, rfl, fun _ => hdash⟩

theorem startsWithDash_openingDash {opened : Bool} {enclosed : List Char}
    (hdash : opened = false → enclosed.head? ≠ some '-') :
    startsWithDash (openingDash opened ++ enclosed) = opened := by
  cases opened with
  | true => rfl
  | false => exact beq_eq_false_iff_ne.mpr (hdash rfl)

/-- The text of a tag, in front of a text, from its first character on. -/
theorem SourceTag.text_append (tag : SourceTag) (after : List Char) :
    tag.text ++ after = '{' :: tag.kind.mark ::
      (openingDash tag.opensWithDash ++ (tag.inside ++ (tag.kind.closer ++ after))) := by
  simp [text, opener]

/-- A closing delimiter does not start with a dash. -/
theorem SourceTag.head?_enclosed (tag : SourceTag) (after : List Char)
    (hopened : tag.opensWithDash = false) :
    (tag.inside ++ (tag.kind.closer ++ after)).head? ≠ some '-' := by
  have hinside := tag.noDash hopened
  cases htext : tag.inside with
  | nil =>
      cases tag.kind <;> exact fun hdash => absurd (Option.some.inj hdash) (by decide)
  | cons c rest =>
      rw [htext] at hinside
      exact hinside

/-! ## The first closing delimiter -/

/-- Whether a closing delimiter starts in front of another one is not up to what is behind it. -/
theorem not_closer_append {kind : TagKind} {text : List Char}
    (hcloser : ¬ kind.closer <+: text ++ kind.closer) (after : List Char) :
    ¬ kind.closer <+: text ++ (kind.closer ++ after) := by
  intro hstarts
  apply hcloser
  rw [← List.append_assoc] at hstarts
  refine List.prefix_of_prefix_length_le hstarts (List.prefix_append _ after) ?_
  rw [List.length_append]
  exact Nat.le_add_left _ _

theorem Unclosed.not_closer {kind : TagKind} {c : Char} {rest : List Char}
    (hinside : Unclosed kind (c :: rest)) (after : List Char) :
    ¬ kind.closer <+: c :: (rest ++ (kind.closer ++ after)) := by
  cases hinside with
  | plain _ hcloser =>
      rw [← List.cons_append] at hcloser ⊢
      exact not_closer_append hcloser after
  | literal _ hquote =>
      rcases isQuote_iff.mp hquote with rfl | rfl <;>
        · cases kind <;> exact fun hstarts => absurd (List.cons_prefix_cons.mp hstarts).1 (by decide)

theorem splitCloser_append {inside : List Char} (hinside : Unclosed .comment inside)
    (after : List Char) :
    splitCloser TagKind.comment.closer (inside ++ (TagKind.comment.closer ++ after)) =
      some (inside, after) := by
  induction inside with
  | nil => rfl
  | cons c rest ih =>
      have hrest : Unclosed .comment rest := by
        cases hinside with
        | plain _ _ hrest => exact hrest
        | literal hkind => exact absurd rfl hkind
      have hcloser := hinside.not_closer after
      rw [← List.isPrefixOf_iff_prefix] at hcloser
      rw [List.cons_append, splitCloser, if_neg hcloser, ih hrest]
      rfl

theorem splitCloser_eq_some {text inside after : List Char}
    (hsplit : splitCloser TagKind.comment.closer text = some (inside, after)) :
    text = inside ++ (TagKind.comment.closer ++ after) ∧ Unclosed .comment inside := by
  induction text generalizing inside with
  | nil => cases hsplit
  | cons c rest ih =>
      rw [splitCloser] at hsplit
      split at hsplit
      case isTrue hcloser =>
        obtain ⟨behind, hbehind⟩ := List.isPrefixOf_iff_prefix.mp hcloser
        obtain ⟨rfl, rfl⟩ := Prod.mk.inj (Option.some.inj hsplit)
        rw [← hbehind, List.drop_left]
        exact ⟨rfl, .nil⟩
      case isFalse hcloser =>
        obtain ⟨⟨front, back⟩, hfound, hfront⟩ := Option.map_eq_some_iff.mp hsplit
        obtain ⟨rfl, rfl⟩ := Prod.mk.inj hfront
        obtain ⟨rfl, hunclosed⟩ := ih hfound
        refine ⟨rfl, .plain (fun hkind => absurd rfl hkind) ?_ hunclosed⟩
        intro hstarts
        refine hcloser (List.isPrefixOf_iff_prefix.mpr (hstarts.trans ?_))
        rw [← List.append_assoc]
        exact List.prefix_append (c :: (front ++ TagKind.comment.closer)) back

/-! ## Words in a tag -/

namespace TokenKind

/-- Whether a token stands inside of a tag. -/
def isInner : TokenKind → Bool
  | .name _ => true
  | .number _ => true
  | .str _ => true
  | .punct _ => true
  | _ => false

end TokenKind

/-- The characters of a token inside of a tag, the first of them apart: a string literal, or without
quotes a name, a number or a mark. -/
inductive Word (c : Char) (front : List Char) : Prop
  | literal : isQuote c = true → Quoted c front → Word c front
  | bare : isQuote c = false → (∀ next ∈ front, isNameChar next = true ∨ next = '.') →
      (c = '-' → front ≠ []) → Word c front

theorem exists_of_stringBody {quote : Char} {text value : List Char} {length : Nat}
    (hbody : stringBody quote text = some (value, length)) :
    ∃ front tail, text = front ++ tail ∧ length = front.length ∧ Quoted quote front := by
  fun_induction stringBody quote text generalizing value length with
  | case1 => cases hbody
  | case2 => cases hbody
  | case3 c rest ih =>
      obtain ⟨⟨found, count⟩, hfound, hpair⟩ := Option.map_eq_some_iff.mp hbody
      obtain ⟨-, rfl⟩ := Prod.mk.inj hpair
      obtain ⟨front, tail, rfl, rfl, hquoted⟩ := ih hfound
      exact ⟨'\\' :: c :: front, tail, rfl, rfl, .escaped c hquoted⟩
  | case4 rest =>
      obtain ⟨-, rfl⟩ := Prod.mk.inj (Option.some.inj hbody)
      exact ⟨[quote], rest, rfl, rfl, .close⟩
  | case5 c rest hsingle hescape hc ih =>
      obtain ⟨⟨found, count⟩, hfound, hpair⟩ := Option.map_eq_some_iff.mp hbody
      obtain ⟨-, rfl⟩ := Prod.mk.inj hpair
      obtain ⟨front, tail, rfl, rfl, hquoted⟩ := ih hfound
      refine ⟨c :: front, tail, rfl, rfl, .plain ?_ hc hquoted⟩
      -- A backslash would have taken a character along or been the last one.
      rintro rfl
      cases hfront : front ++ tail with
      | nil => exact hsingle rfl hfront
      | cons next others => exact hescape next others rfl hfront

/-- What a number writes behind its whole part, without the point. -/
def fractionFront (text : List Char) : List Char :=
  match text.drop (text.takeWhile Char.isDigit).length with
  | '.' :: rest => rest.takeWhile Char.isDigit
  | _ => []

/-- The digits in front of a text, with the point between them. -/
def decimalFront (text : List Char) : List Char :=
  text.takeWhile Char.isDigit ++
    (if (fractionFront text).isEmpty then [] else '.' :: fractionFront text)

theorem decimalFront_isPrefix (text : List Char) : decimalFront text <+: text := by
  have hwhole := List.prefix_iff_eq_append.mp (List.takeWhile_prefix Char.isDigit (l := text))
  have hbehind : (if (fractionFront text).isEmpty then [] else '.' :: fractionFront text) <+:
      text.drop (text.takeWhile Char.isDigit).length := by
    unfold fractionFront
    split
    case h_1 rest hrest =>
      rw [hrest]
      split
      case isTrue => exact List.nil_prefix
      case isFalse => exact List.cons_prefix_cons.mpr ⟨rfl, List.takeWhile_prefix _⟩
    case h_2 => exact List.nil_prefix
  obtain ⟨tail, htail⟩ := hbehind
  refine ⟨tail, ?_⟩
  rw [decimalFront, List.append_assoc, htail, hwhole]

theorem isNameChar_of_isDigit {c : Char} (hdigit : c.isDigit = true) : isNameChar c = true := by
  simp [isNameChar, Char.isAlphanum, hdigit]

theorem of_mem_decimalFront {text : List Char} {c : Char} (hc : c ∈ decimalFront text) :
    isNameChar c = true ∨ c = '.' := by
  have hdigits : ∀ {c : Char} {text : List Char}, c ∈ text.takeWhile Char.isDigit →
      isNameChar c = true := fun hmem => isNameChar_of_isDigit (List.mem_takeWhile_imp hmem)
  rcases List.mem_append.mp hc with hc | hc
  · exact .inl (hdigits hc)
  · split at hc
    case isTrue => cases hc
    case isFalse =>
      rcases List.mem_cons.mp hc with rfl | hc
      · exact .inr rfl
      · unfold fractionFront at hc
        split at hc
        case h_1 => exact .inl (hdigits hc)
        case h_2 => cases hc

theorem decimalFront_cons {c : Char} (hc : c.isDigit = true) (rest : List Char) :
    ∃ front, decimalFront (c :: rest) = c :: front := by
  rw [decimalFront, List.takeWhile_cons_of_pos hc]
  exact ⟨_, rfl⟩

theorem numberLexeme_eq_ok {text : List Char} {token : TokenKind} {length : Nat}
    (hnumber : numberLexeme text = .ok (token, length)) :
    token.isInner = true ∧
      length = if text.head? == some '-' then (decimalFront text.tail).length + 1
        else (decimalFront text).length := by
  unfold numberLexeme at hnumber
  dsimp only at hnumber
  split at hnumber
  case h_2 => cases hnumber
  case h_1 =>
    obtain ⟨rfl, rfl⟩ := Prod.mk.inj (Except.ok.inj hnumber)
    refine ⟨rfl, ?_⟩
    split
    case isTrue => exact List.length_cons
    case isFalse => rfl

/-- Digits, a letter and a dash are no quotes. -/
theorem isQuote_eq_false {c : Char} (hc : c ≠ '\'') (hc' : c ≠ '"') : isQuote c = false := by
  rw [Bool.eq_false_iff, ne_eq, isQuote_iff, not_or]
  exact ⟨hc, hc'⟩

theorem exists_word_of_number {c : Char} {rest : List Char} {token : TokenKind} {length : Nat}
    (hstart : c.isDigit = true ∨ c = '-' ∧ rest.head?.any Char.isDigit = true)
    (hnumber : numberLexeme (c :: rest) = .ok (token, length)) :
    ∃ front tail, rest = front ++ tail ∧ length = front.length + 1 ∧ token.isInner = true ∧
      Word c front := by
  obtain ⟨hinner, hlength⟩ := numberLexeme_eq_ok hnumber
  rcases hstart with hdigit | ⟨rfl, hdigit⟩
  · obtain ⟨front, hfront⟩ := decimalFront_cons hdigit rest
    obtain ⟨tail, htail⟩ := decimalFront_isPrefix (c :: rest)
    have hsign : c ≠ '-' := by
      rintro rfl
      cases hdigit
    have hquote : isQuote c = false := by
      apply isQuote_eq_false <;> rintro rfl <;> cases hdigit
    rw [hfront] at htail
    refine ⟨front, tail, (List.cons.inj htail).2.symm,
      by simpa [hsign, hfront] using hlength, hinner,
      .bare hquote ?_ (absurd · hsign)⟩
    intro next hnext
    exact of_mem_decimalFront (hfront ▸ List.mem_cons_of_mem c hnext)
  · obtain ⟨first, others, rfl⟩ : ∃ first others, rest = first :: others := by
      cases rest with
      | nil => cases hdigit
      | cons first others => exact ⟨first, others, rfl⟩
    obtain ⟨front, hfront⟩ := decimalFront_cons (by simpa using hdigit) others
    obtain ⟨tail, htail⟩ := decimalFront_isPrefix (first :: others)
    refine ⟨decimalFront (first :: others), tail, htail.symm, by simpa using hlength, hinner,
      .bare rfl (fun next hnext => of_mem_decimalFront hnext) fun _ => ?_⟩
    rw [hfront]
    exact List.cons_ne_nil _ _

/-- A token inside of a tag takes a word from the front of the text. -/
theorem exists_word_of_lexeme {c : Char} {rest : List Char} {token : TokenKind} {length : Nat}
    (hlexeme : lexeme c rest = .ok (token, length)) :
    ∃ front tail, rest = front ++ tail ∧ length = front.length + 1 ∧ token.isInner = true ∧
      Word c front := by
  unfold lexeme at hlexeme
  split at hlexeme
  case isTrue hname =>
    obtain ⟨rfl, rfl⟩ := Prod.mk.inj (Except.ok.inj hlexeme)
    obtain ⟨tail, htail⟩ := List.takeWhile_prefix isNameChar (l := rest)
    have hquote : isQuote c = false := by
      apply isQuote_eq_false <;> rintro rfl <;> cases hname
    refine ⟨rest.takeWhile isNameChar, tail, htail.symm, ?_, rfl, .bare hquote ?_ ?_⟩
    · rw [List.takeWhile_cons_of_pos (isNameChar_of_isNameStart hname), List.length_cons]
    · exact fun next hnext => .inl (List.mem_takeWhile_imp hnext)
    · rintro rfl
      cases hname
  case isFalse =>
    split at hlexeme
    case isTrue hnumber =>
      rw [Bool.or_eq_true, Bool.and_eq_true, beq_iff_eq] at hnumber
      exact exists_word_of_number hnumber hlexeme
    case isFalse =>
      split at hlexeme
      case isTrue hquote =>
        split at hlexeme
        case h_1 value length hbody =>
          obtain ⟨rfl, rfl⟩ := Prod.mk.inj (Except.ok.inj hlexeme)
          obtain ⟨front, tail, rfl, rfl, hquoted⟩ := exists_of_stringBody hbody
          exact ⟨front, tail, rfl, rfl, rfl, .literal hquote hquoted⟩
        case h_2 => cases hlexeme
      case isFalse hquote =>
        split at hlexeme
        case isTrue hmark =>
          obtain ⟨rfl, rfl⟩ := Prod.mk.inj (Except.ok.inj hlexeme)
          refine ⟨[], rest, rfl, rfl, rfl, .bare (Bool.eq_false_iff.mpr hquote) nofun ?_⟩
          rintro rfl
          cases hmark
        case isFalse => cases hlexeme

end TemplateMessages.Template

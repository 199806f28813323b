import TemplateMessages.Proofs.KeptTexts
import TemplateMessages.Proofs.MatchingTokens
import TemplateMessages.Proofs.TokenEnds

/-!
# Sources with the same tags

Two sources have the same tags when they alternate between texts and tags, the tags
being one for one the same and each text related to the one in its place.  What the
walk finds in a tag is decided by the tag alone: a name or a number in it ends in
front of the closing delimiter whatever is behind the tag.  So the tokens match when
what the tags leave of the texts does, and a tag that is refused is refused in both
sources.
-/

namespace TemplateMessages.Template

/-- Two sources, or what is behind a tag of both, with the same tags and related texts between
them.  How two texts are related may depend on the tag in front of them. -/
inductive SameTags (related : Option SourceTag → List Char → List Char → Prop) :
    Option SourceTag → List Char → List Char → Prop
  | last {before : Option SourceTag} {run run' : List Char} :
      Plain run [] → Plain run' [] → related before run run' → SameTags related before run run'
  | tag {before : Option SourceTag} {run run' rest rest' : List Char} {tag : SourceTag} :
      tag.Complete → Plain run (tag.text ++ rest) → Plain run' (tag.text ++ rest') →
      related before run run' → SameTags related (some tag) rest rest' →
      SameTags related before (run ++ (tag.text ++ rest)) (run' ++ (tag.text ++ rest'))

/-- Two sources that are one pair of tags around related texts. -/
theorem SameTags.enclosed {related : Option SourceTag → List Char → List Char → Prop}
    (hempty : ∀ before, related before [] []) {opening closing : SourceTag}
    (hopening : opening.Complete) (hclosing : closing.Complete) {body body' : List Char}
    (hbody : '{' ∉ body) (hbody' : '{' ∉ body') (hrelated : related (some opening) body body') :
    SameTags related none (opening.text ++ (body ++ closing.text))
      (opening.text ++ (body' ++ closing.text)) := by
  have hend : SameTags related (some closing) [] [] :=
    .last (plain_nil _) (plain_nil _) (hempty _)
  have hbehind := SameTags.tag hclosing (plain_of_notMem hbody _) (plain_of_notMem hbody' _)
    hrelated hend
  have hsame := SameTags.tag hopening (plain_nil _) (plain_nil _) (hempty none) hbehind
  simpa only [List.append_nil, List.nil_append] using hsame

/-! ## What is inside of a tag -/

namespace Unclosed

variable {kind : TagKind} {c : Char} {front rest : List Char}

theorem tail (hinside : Unclosed kind (c :: rest)) (hquote : isQuote c = false) :
    Unclosed kind rest := by
  cases hinside with
  | plain _ _ hrest => exact hrest
  | literal _ hliteral =>
      rw [hquote] at hliteral
      cases hliteral

theorem of_names (hfront : ∀ next ∈ front, isNameChar next = true ∨ next = '.')
    (hinside : Unclosed kind (front ++ rest)) : Unclosed kind rest := by
  induction front with
  | nil => exact hinside
  | cons next front ih =>
      obtain ⟨hnext, hfront⟩ := List.forall_mem_cons.mp hfront
      exact ih hfront (hinside.tail (isQuote_of_isNameChar hnext))

theorem exists_quoted (hkind : kind ≠ .comment) (hquote : isQuote c = true)
    (hinside : Unclosed kind (c :: rest)) :
    ∃ front tail, rest = front ++ tail ∧ Quoted c front ∧ Unclosed kind tail := by
  cases hinside with
  | plain hbare =>
      rw [hbare hkind] at hquote
      cases hquote
  | literal _ _ hquoted hrest => exact ⟨_, _, rfl, hquoted, hrest⟩

end Unclosed

theorem delimits_closer (kind : TagKind) (after : List Char) : Delimits (kind.closer ++ after) := by
  cases kind <;> simp [TagKind.closer, Delimits, isNameChar]

/-- The first word in a tag, or that there is none, is the same whatever is behind the tag. -/
theorem Unclosed.lexeme_cases {kind : TagKind} (hkind : kind ≠ .comment) {c : Char}
    {rest : List Char} (hinside : Unclosed kind (c :: rest)) :
    (∃ fault, ∀ after, lexeme c (rest ++ (kind.closer ++ after)) = .error fault) ∨
      ∃ front tail token, rest = front ++ tail ∧ Word c front ∧ Unclosed kind tail ∧
        ∀ after, lexeme c (rest ++ (kind.closer ++ after)) = .ok (token, front.length + 1) := by
  cases hquote : isQuote c with
  | true =>
      obtain ⟨front, tail, rfl, hquoted, htail⟩ := hinside.exists_quoted hkind hquote
      obtain ⟨value, hvalue⟩ := hquoted.exists_lexeme hquote
      refine .inr ⟨front, tail, .str value, rfl, .literal hquote hquoted, htail, fun after => ?_⟩
      rw [List.append_assoc]
      exact hvalue _
  | false =>
      have hsame : ∀ after, lexeme c (rest ++ (kind.closer ++ after)) = lexeme c rest :=
        fun after => (delimits_closer kind after).lexeme_append hquote rest
      cases hlexeme : lexeme c rest with
      | error fault => exact .inl ⟨fault, fun after => (hsame after).trans hlexeme⟩
      | ok found =>
          obtain ⟨token, length⟩ := found
          obtain ⟨front, tail, rfl, rfl, -, hword⟩ := exists_word_of_lexeme hlexeme
          refine .inr ⟨front, tail, token, rfl, hword, ?_, fun after => (hsame after).trans hlexeme⟩
          cases hword with
          | literal hliteral =>
              rw [hquote] at hliteral
              cases hliteral
          | bare _ hfront => exact (hinside.tail hquote).of_names hfront

/-! ## The walk over a tag -/

section Scan

variable {texts : String → String → Prop}

/-- The same error, but for its line, or tokens that match. -/
abbrev MatchesScan (texts : String → String → Prop) :
    Except SyntaxError (List Token) → Except SyntaxError (List Token) → Prop :=
  Matches SyntaxError.Agrees (List.Forall₂ (Token.Like texts))

theorem MatchesScan.append {front front' : List Token}
    (hfront : List.Forall₂ (Token.Like texts) front front')
    {result result' : Except SyntaxError (List Token)} (hresult : MatchesScan texts result result') :
    MatchesScan texts ((front ++ ·) <$> result) ((front' ++ ·) <$> result') := by
  cases hresult with
  | error herror => exact .error herror
  | ok htokens => exact .ok (List.rel_append hfront htokens)

theorem MatchesScan.cons (kind : TokenKind) (line line' : Nat)
    {result result' : Except SyntaxError (List Token)} (hresult : MatchesScan texts result result') :
    MatchesScan texts (result.map (⟨kind, line⟩ :: ·)) (result'.map (⟨kind, line'⟩ :: ·)) := by
  have htoken : List.Forall₂ (Token.Like texts) [⟨kind, line⟩] [⟨kind, line'⟩] :=
    .cons (.same kind) .nil
  exact .append htoken hresult

variable {kind : TagKind} {after after' : List Char}

/-- From the same place in a tag on the walks over two sources match, if those behind the tag do. -/
theorem matches_scan_inside (hkind : kind ≠ .comment) {inside : List Char} {closed : Bool}
    (hinside : Unclosed kind inside) (hclosed : (inside.getLast? == some '-') = closed)
    (hafter : ∀ line line', MatchesScan texts
      (scan (.text closed) (kind.taken closed after) line after)
      (scan (.text closed) (kind.taken closed after') line' after'))
    (start start' line line' : Nat) :
    MatchesScan texts (scan (.tag kind start) 0 line (inside ++ (kind.closer ++ after)))
      (scan (.tag kind start') 0 line' (inside ++ (kind.closer ++ after'))) := by
  induction hlength : inside.length using Nat.strong_induction_on
    generalizing inside line line' with
  | _ length ih =>
      subst hlength
      cases inside with
      | nil =>
          subst hclosed
          rw [List.nil_append, List.nil_append, scan_closer hkind, scan_closer hkind]
          exact .cons _ _ _ (hafter line line')
      | cons c rest =>
          rw [List.cons_append, List.cons_append]
          by_cases hblank : Text.isBlank c = true
          · have htail := hinside.tail (isQuote_of_isBlank hblank)
            rw [← List.singleton_append, getLast?_append_eq_dash (getLast?_of_isBlank hblank)]
              at hclosed
            rw [scan_blank hblank, scan_blank hblank]
            exact ih _ (Nat.lt_succ_self _) htail hclosed _ _ rfl
          · by_cases hdash : c = '-' ∧ rest = []
            · obtain ⟨rfl, rfl⟩ := hdash
              subst hclosed
              rw [List.nil_append, List.nil_append, scan_dash_closer hkind, scan_dash_closer hkind]
              exact .cons _ _ _ (hafter line line')
            · -- A dash in front of more is no part of the closing delimiter.
              have hbehind : ∀ after, c = '-' → ¬ kind.closer <+: rest ++ (kind.closer ++ after) := by
                rintro after rfl
                obtain ⟨next, others, rfl⟩ :=
                  List.exists_cons_of_ne_nil fun hnil => hdash ⟨rfl, hnil⟩
                exact (hinside.tail rfl).not_closer after
              rw [scan_word (Bool.eq_false_iff.mpr hblank) (hinside.not_closer after) (hbehind after),
                scan_word (Bool.eq_false_iff.mpr hblank) (hinside.not_closer after') (hbehind after')]
              rcases hinside.lexeme_cases hkind with
                ⟨fault, hfault⟩ | ⟨front, tail, token, rfl, hword, htail, hlexeme⟩
              · rw [hfault, hfault]
                exact .error (SyntaxError.agrees_onLine _ _ rfl)
              · rw [hlexeme, hlexeme]
                rw [← List.cons_append, getLast?_append_eq_dash hword.getLast?_ne_dash] at hclosed
                have hshorter : tail.length < (c :: (front ++ tail)).length := by
                  simp only [List.length_cons, List.length_append]
                  omega
                dsimp only
                rw [Nat.add_sub_cancel, List.append_assoc, List.append_assoc, scan_skip, scan_skip]
                exact .cons _ _ _ (ih _ hshorter htail hclosed _ _ rfl)

/-- The walks over one tag in two sources match if those behind the tag do. -/
theorem matches_scan_tag {tag : SourceTag} (hcomplete : tag.Complete)
    (hafter : ∀ line line', MatchesScan texts (scanBehind (some tag) line after)
      (scanBehind (some tag) line' after')) (line line' : Nat) :
    MatchesScan texts (scan (.text false) 0 line (tag.text ++ after))
      (scan (.text false) 0 line' (tag.text ++ after')) := by
  have hdash := tag.head?_enclosed after
  have hdash' := tag.head?_enclosed after'
  rw [SourceTag.text_append, SourceTag.text_append]
  by_cases hkind : tag.kind = .comment
  · obtain ⟨kind, opened, inside, hopened⟩ := tag
    obtain rfl : kind = .comment := hkind
    rw [scan_comment hdash, scan_comment hdash', splitCloser_append hcomplete,
      splitCloser_append hcomplete]
    exact hafter _ _
  · rw [scan_delimited hkind hdash, scan_delimited hkind hdash']
    exact .cons _ _ _ (matches_scan_inside hkind hcomplete rfl hafter _ _ _ _)

/-! ## The walk over a source -/

/-- A text makes one token, of what the tags around it leave of it, or none. -/
theorem exists_textToken_eq (before next : Option SourceTag) (line : Nat) (run : List Char) :
    ∃ found, textToken (before.any SourceTag.closesWithDash) (next.any SourceTag.opensWithDash) line
        (run.drop (skipped before run)) =
      (textKinds before run next).map (Token.mk · found) := by
  rw [textToken_eq_ite, ← trimmedFront_eq]
  dsimp only
  rw [← keptText, textKinds]
  split
  case isTrue => exact ⟨0, rfl⟩
  case isFalse => exact ⟨_, rfl⟩

/-- What the tags around them leave of related texts is related, or nothing is left of both. -/
def KeepsLike (texts : String → String → Prop)
    (related : Option SourceTag → List Char → List Char → Prop) : Prop :=
  ∀ {before : Option SourceTag} {run run' : List Char}, related before run run' →
    ∀ next, List.Forall₂ (TokenKind.Like texts) (textKinds before run next)
      (textKinds before run' next)

variable {related : Option SourceTag → List Char → List Char → Prop}

theorem KeepsLike.matches_textToken (hkeeps : KeepsLike texts related) {before : Option SourceTag}
    {run run' : List Char} (hrun : related before run run') (next : Option SourceTag)
    (line line' : Nat) :
    List.Forall₂ (Token.Like texts)
      (textToken (before.any SourceTag.closesWithDash) (next.any SourceTag.opensWithDash) line
        (run.drop (skipped before run)))
      (textToken (before.any SourceTag.closesWithDash) (next.any SourceTag.opensWithDash) line'
        (run'.drop (skipped before run'))) := by
  obtain ⟨found, hfound⟩ := exists_textToken_eq before next line run
  obtain ⟨found', hfound'⟩ := exists_textToken_eq before next line' run'
  rw [hfound, hfound', List.forall₂_map_left_iff, List.forall₂_map_right_iff]
  exact hkeeps hrun next

namespace SameTags

theorem matches_scanBehind (hkeeps : KeepsLike texts related) {before : Option SourceTag}
    {text text' : List Char} (hsame : SameTags related before text text') (line line' : Nat) :
    MatchesScan texts (scanBehind before line text) (scanBehind before line' text') := by
  induction hsame generalizing line line' with
  | last hplain hplain' hrun =>
      rw [scanBehind_last hplain, scanBehind_last hplain']
      exact .ok (List.rel_append (hkeeps.matches_textToken hrun none _ _)
        (.cons (.same .eof) .nil))
  | @tag before run run' rest rest' tag hcomplete hplain hplain' hrun _ ih =>
      have hrest := matches_scan_tag hcomplete ih (line + countLineFeeds run)
        (line' + countLineFeeds run')
      have htokens := hkeeps.matches_textToken hrun (some tag)
        (line + countLineFeeds (run.take (skipped before run)))
        (line' + countLineFeeds (run'.take (skipped before run')))
      rw [SourceTag.text_append] at hplain hplain'
      rw [SourceTag.text_append, SourceTag.text_append] at hrest ⊢
      rw [scanBehind_front hplain, scanBehind_front hplain',
        startsWithDash_openingDash (tag.head?_enclosed rest),
        startsWithDash_openingDash (tag.head?_enclosed rest')]
      exact .append htokens hrest

/-- Sources with the same tags have matching tokens, or the same tag of both is refused. -/
theorem matches_tokenize (hkeeps : KeepsLike texts related) {source source' : String}
    (hsame : SameTags related none source.toList source'.toList) :
    MatchesScan texts (tokenize source) (tokenize source') :=
  hsame.matches_scanBehind hkeeps 1 1

end SameTags

end Scan

end TemplateMessages.Template

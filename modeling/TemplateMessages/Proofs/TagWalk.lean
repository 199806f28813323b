import TemplateMessages.Proofs.SourceTags

/-!
# The walk over a tag

Inside of a print or block tag the walk over a source skips blanks and takes one word
after the other, up to the closing delimiter.  A token is placed where its first
character stands, and its line is that of the position.  No word contains the closing
delimiter outside of a string, and none ends in a dash, so the tag ends at the first
closing delimiter and the dash in front of it can only be the delimiter's own.
-/

namespace TemplateMessages.Template

/-! ## Positions and lines -/

theorem countLineFeeds_append (first second : List Char) :
    countLineFeeds (first ++ second) = countLineFeeds first + countLineFeeds second :=
  List.count_append

theorem countLineFeeds_cons (c : Char) (rest : List Char) :
    countLineFeeds (c :: rest) = countLineFeeds [c] + countLineFeeds rest :=
  countLineFeeds_append [c] rest

theorem next_eq (line : Nat) (c : Char) :
    (if c = '\n' then line + 1 else line) = line + countLineFeeds [c] :=
  next_add_countLineFeeds line c []

/-- The line of a position of a source. -/
def lineAt (source : List Char) (position : Nat) : Nat :=
  1 + countLineFeeds (source.take position)

/-- A kind of token and the position where a token of it starts. -/
structure Placement where
  kind : TokenKind
  position : Nat

def Placement.token (source : List Char) (placement : Placement) : Token :=
  ⟨placement.kind, lineAt source placement.position⟩

/-- A walk over a source stands at a position, on a line and in front of a text. -/
structure Stands (source : List Char) (position line : Nat) (text : List Char) : Prop where
  text_eq : source.drop position = text
  line_eq : lineAt source position = line

namespace Stands

variable {source rest text : List Char} {position line : Nat}

theorem start (source : List Char) : Stands source 0 1 source :=
  ⟨rfl, rfl⟩

theorem pass (front : List Char) (hstands : Stands source position line (front ++ rest)) :
    Stands source (position + front.length) (line + countLineFeeds front) rest where
  text_eq := by rw [← List.drop_drop, hstands.text_eq, List.drop_left]
  line_eq := by
    rw [lineAt, List.take_add, hstands.text_eq, List.take_left, countLineFeeds_append,
      ← Nat.add_assoc, ← lineAt, hstands.line_eq]

theorem lineAt_add {front : List Char} {n : Nat}
    (hstands : Stands source position line (front ++ rest)) (hn : n ≤ front.length) :
    lineAt source (position + n) = line + countLineFeeds (front.take n) := by
  rw [← List.take_append_drop n front, List.append_assoc] at hstands
  have hline := (hstands.pass _).line_eq
  rwa [List.length_take_of_le hn] at hline

/-- The line of the end of a source. -/
theorem line_end (hstands : Stands source position line text) :
    line + countLineFeeds text = 1 + countLineFeeds source := by
  rw [← hstands.line_eq, ← hstands.text_eq, lineAt, Nat.add_assoc, ← countLineFeeds_append,
    List.take_append_drop]

theorem token_eq (hstands : Stands source position line text) (kind : TokenKind) :
    Placement.token source ⟨kind, position⟩ = ⟨kind, line⟩ := by
  rw [Placement.token, hstands.line_eq]

end Stands

/-! ## Inside of a tag -/

/-- The tokens of a tag from a position in it on, its closing delimiter among them, in front of what
is behind the tag.  The flag tells whether the delimiter has a dash. -/
inductive Inside (kind : TagKind) (after : List Char) :
    Bool → Nat → List Char → List Placement → Prop
  | close {position : Nat} : Inside kind after false position [] [⟨kind.endToken, position⟩]
  | dash {position : Nat} : Inside kind after true position ['-'] [⟨kind.endToken, position⟩]
  | blank {trim : Bool} {position : Nat} {c : Char} {inside : List Char}
      {placements : List Placement} :
      Text.isBlank c = true → Inside kind after trim (position + 1) inside placements →
      Inside kind after trim position (c :: inside) placements
  | word {trim : Bool} {position : Nat} {c : Char} {front inside : List Char} {token : TokenKind}
      {placements : List Placement} :
      ¬ kind.closer <+: c :: (front ++ (inside ++ kind.closer)) →
      lexeme c (front ++ (inside ++ (kind.closer ++ after))) = .ok (token, front.length + 1) →
      token.isInner = true → Word c front →
      Inside kind after trim (position + (front.length + 1)) inside placements →
      Inside kind after trim position (c :: (front ++ inside)) (⟨token, position⟩ :: placements)

/-- The line feed that a tag takes along. -/
def TagKind.taken (kind : TagKind) (trim : Bool) (after : List Char) : Nat :=
  if kind = .print then 0 else takenLineFeed trim after

/-! ## Steps of the walk -/

section Steps

variable {kind : TagKind} {c : Char} {text : List Char}

theorem scan_blank (hblank : Text.isBlank c = true) (start line : Nat) :
    scan (.tag kind start) 0 line (c :: text) =
      scan (.tag kind start) 0 (line + countLineFeeds [c]) text := by
  rw [scan, next_eq]
  exact if_pos hblank

theorem scan_closer (hkind : kind ≠ .comment) (start line : Nat) (after : List Char) :
    scan (.tag kind start) 0 line (kind.closer ++ after) =
      (scan (.text false) (kind.taken false after) line after).map (⟨kind.endToken, line⟩ :: ·) := by
  cases kind with
  | comment => exact absurd rfl hkind
  | print => rfl
  | block =>
      show (scan (.text false) (1 + takenLineFeed false after) line ('}' :: after)).map _ = _
      rw [Nat.add_comm]
      rfl

theorem scan_dash_closer (hkind : kind ≠ .comment) (start line : Nat) (after : List Char) :
    scan (.tag kind start) 0 line ('-' :: (kind.closer ++ after)) =
      (scan (.text true) (kind.taken true after) line after).map (⟨kind.endToken, line⟩ :: ·) := by
  cases kind with
  | comment => exact absurd rfl hkind
  | print => rfl
  | block => rfl

/-- Where no tag ends the walk takes a word, or stops. -/
theorem scan_word (hblank : Text.isBlank c = false) (hcloser : ¬ kind.closer <+: c :: text)
    (hdash : c = '-' → ¬ kind.closer <+: text) (start line : Nat) :
    scan (.tag kind start) 0 line (c :: text) =
      match lexeme c text with
      | .ok (token, length) =>
          (scan (.tag kind start) (length - 1) (line + countLineFeeds [c]) text).map
            (⟨token, line⟩ :: ·)
      | .error fault => .error (.onLine line fault) := by
  rw [← List.isPrefixOf_iff_prefix] at hcloser
  have hdash : ¬ (c = '-' ∧ kind.closer.isPrefixOf text = true) := by
    rw [List.isPrefixOf_iff_prefix]
    exact fun hends => hdash hends.1 hends.2
  rw [scan, next_eq]
  dsimp only
  cases lexeme c text <;>
    exact (if_neg (ne_true_of_eq_false hblank)).trans ((if_neg hcloser).trans (if_neg hdash))

end Steps

/-! ## Out of a tag -/

/-- What a walk that stands in a tag finds up to the end of the tag, and where it goes on. -/
def LeavesTag (source : List Char) (kind : TagKind) (position line : Nat) (text : List Char)
    (tokens : List Token) : Prop :=
  ∃ trim inside after inner others,
    text = inside ++ (kind.closer ++ after) ∧ Inside kind after trim position inside inner ∧
      tokens = inner.map (Placement.token source) ++ others ∧
      scan (.text trim) (kind.taken trim after)
        (line + countLineFeeds (inside ++ kind.closer)) after = .ok others

namespace LeavesTag

variable {source : List Char} {kind : TagKind} {position line : Nat} {c : Char}
  {rest text : List Char} {tokens : List Token}

theorem blank (hblank : Text.isBlank c = true)
    (hrest : LeavesTag source kind (position + 1) (line + countLineFeeds [c]) rest tokens) :
    LeavesTag source kind position line (c :: rest) tokens := by
  obtain ⟨trim, inside, after, inner, others, rfl, hinside, rfl, hscan⟩ := hrest
  refine ⟨trim, c :: inside, after, inner, others, rfl, .blank hblank hinside, rfl, ?_⟩
  rwa [List.cons_append, countLineFeeds_cons, ← Nat.add_assoc]

theorem word {front : List Char} {token : TokenKind}
    (hstands : Stands source position line (c :: (front ++ rest)))
    (hcloser : ¬ kind.closer <+: c :: (front ++ rest))
    (hlexeme : lexeme c (front ++ rest) = .ok (token, front.length + 1))
    (hinner : token.isInner = true) (hword : Word c front)
    (hrest : LeavesTag source kind (position + (front.length + 1))
      (line + countLineFeeds (c :: front)) rest tokens) :
    LeavesTag source kind position line (c :: (front ++ rest)) (⟨token, line⟩ :: tokens) := by
  obtain ⟨trim, inside, after, inner, others, rfl, hinside, rfl, hscan⟩ := hrest
  have hbefore : ¬ kind.closer <+: c :: (front ++ (inside ++ kind.closer)) := by
    intro hstarts
    apply hcloser
    rw [← List.append_assoc, ← List.append_assoc]
    exact hstarts.trans ⟨after, by simp⟩
  refine ⟨trim, c :: (front ++ inside), after, _, others, by simp,
    .word hbefore hlexeme hinner hword hinside, ?_, ?_⟩
  · rw [List.map_cons, hstands.token_eq, List.cons_append]
  · rwa [← List.cons_append, List.append_assoc, countLineFeeds_append, ← Nat.add_assoc]

theorem close {after : List Char} (hstands : Stands source position line (kind.closer ++ after))
    (hscan : scan (.text false) (kind.taken false after) line after = .ok tokens) :
    LeavesTag source kind position line (kind.closer ++ after) (⟨kind.endToken, line⟩ :: tokens) := by
  refine ⟨false, [], after, [⟨kind.endToken, position⟩], tokens, rfl, .close, ?_, ?_⟩
  · rw [List.map_singleton, hstands.token_eq, List.singleton_append]
  · cases kind <;> exact hscan

theorem dash {after : List Char}
    (hstands : Stands source position line ('-' :: (kind.closer ++ after)))
    (hscan : scan (.text true) (kind.taken true after) line after = .ok tokens) :
    LeavesTag source kind position line ('-' :: (kind.closer ++ after))
      (⟨kind.endToken, line⟩ :: tokens) := by
  refine ⟨true, ['-'], after, [⟨kind.endToken, position⟩], tokens, rfl, .dash, ?_, ?_⟩
  · rw [List.map_singleton, hstands.token_eq, List.singleton_append]
  · cases kind <;> exact hscan

end LeavesTag

/-- A walk that stands in a print or block tag leaves it. -/
theorem leavesTag_of_scan {source : List Char} {kind : TagKind} (hkind : kind ≠ .comment)
    {start position line : Nat} {text : List Char} {tokens : List Token}
    (hstands : Stands source position line text)
    (hscan : scan (.tag kind start) 0 line text = .ok tokens) :
    LeavesTag source kind position line text tokens := by
  induction hlength : text.length using Nat.strong_induction_on
    generalizing text position line tokens with
  | _ length ih =>
      subst hlength
      cases text with
      | nil => cases hscan
      | cons c rest =>
          by_cases hblank : Text.isBlank c = true
          · rw [scan_blank hblank] at hscan
            have hnext := hstands.pass [c]
            exact (ih _ (Nat.lt_succ_self _) hnext hscan rfl).blank hblank
          by_cases hcloser : kind.closer <+: c :: rest
          · obtain ⟨after, hafter⟩ := hcloser
            rw [← hafter] at hstands hscan ⊢
            rw [scan_closer hkind] at hscan
            obtain ⟨others, hothers, rfl⟩ := map_eq_ok.mp hscan
            exact .close hstands hothers
          by_cases hdash : c = '-' ∧ kind.closer <+: rest
          · obtain ⟨rfl, after, rfl⟩ := hdash
            rw [scan_dash_closer hkind] at hscan
            obtain ⟨others, hothers, rfl⟩ := map_eq_ok.mp hscan
            exact .dash hstands hothers
          rw [scan_word (Bool.eq_false_iff.mpr hblank) hcloser fun hc hends => hdash ⟨hc, hends⟩]
            at hscan
          split at hscan
          case h_1 token length hlexeme =>
            obtain ⟨others, hothers, rfl⟩ := map_eq_ok.mp hscan
            obtain ⟨front, tail, rfl, rfl, hinner, hword⟩ := exists_word_of_lexeme hlexeme
            rw [Nat.add_sub_cancel, scan_skip, Nat.add_assoc, ← countLineFeeds_cons] at hothers
            have hnext := hstands.pass (c :: front)
            have hshorter : tail.length < (c :: (front ++ tail)).length := by
              simp only [List.length_cons, List.length_append]
              omega
            exact (ih _ hshorter hnext hothers rfl).word hstands hcloser hlexeme hinner hword
          case h_2 => cases hscan

/-! ## What is inside of a tag -/

theorem isQuote_of_isNameChar {c : Char} (hc : isNameChar c = true ∨ c = '.') :
    isQuote c = false := by
  apply isQuote_eq_false <;> rintro rfl <;> rcases hc with hc | hc <;> cases hc

theorem isQuote_of_isBlank {c : Char} (hblank : Text.isBlank c = true) : isQuote c = false := by
  apply isQuote_eq_false <;> rintro rfl <;> cases hblank

theorem getLast?_of_isBlank {c : Char} (hblank : Text.isBlank c = true) :
    [c].getLast? ≠ some '-' := by
  intro hdash
  obtain rfl := Option.some.inj hdash
  cases hblank

/-- No closing delimiter starts with a character of a name or of a number. -/
theorem not_closer_of_isNameChar {kind : TagKind} {c : Char} (hc : isNameChar c = true ∨ c = '.')
    (rest : List Char) : ¬ kind.closer <+: c :: rest := by
  cases kind <;>
    · rw [TagKind.closer, List.cons_prefix_cons]
      rintro ⟨rfl, -⟩
      rcases hc with hc | hc <;> cases hc

theorem Quoted.getLast? {quote : Char} {front : List Char} (hquoted : Quoted quote front) :
    front.getLast? = some quote := by
  induction hquoted with
  | close => rfl
  | @escaped c rest hrest ih => simp [List.getLast?_cons, ih]
  | plain _ _ _ ih => simp [List.getLast?_cons, ih]

/-- A word does not end in a dash. -/
theorem Word.getLast?_ne_dash {c : Char} {front : List Char} (hword : Word c front) :
    (c :: front).getLast? ≠ some '-' := by
  intro hlast
  cases hword with
  | literal hquote hquoted =>
      rw [List.getLast?_cons, hquoted.getLast?] at hlast
      obtain rfl := Option.some.inj hlast
      cases hquote
  | bare _ hfront hdash =>
      by_cases hnil : front = []
      · subst hnil
        exact hdash (Option.some.inj hlast) rfl
      · rw [List.getLast?_cons_of_ne_nil hnil] at hlast
        rcases hfront _ (List.mem_of_getLast? hlast) with hc | hc <;> cases hc

/-- In front of more characters a text without a dash at its end makes no difference to the end. -/
theorem getLast?_append_eq_dash {front : List Char} (hfront : front.getLast? ≠ some '-')
    (rest : List Char) :
    ((front ++ rest).getLast? == some '-') = (rest.getLast? == some '-') := by
  rw [List.getLast?_append]
  cases rest.getLast? with
  | none => rw [Option.none_or, beq_eq_false_iff_ne.mpr hfront]; rfl
  | some => rfl

theorem unclosed_names {kind : TagKind} {front rest : List Char}
    (hfront : ∀ next ∈ front, isNameChar next = true ∨ next = '.') (hrest : Unclosed kind rest) :
    Unclosed kind (front ++ rest) := by
  induction front with
  | nil => exact hrest
  | cons next front ih =>
      obtain ⟨hnext, hfront⟩ := List.forall_mem_cons.mp hfront
      exact .plain (fun _ => isQuote_of_isNameChar hnext) (not_closer_of_isNameChar hnext _)
        (ih hfront)

theorem Word.unclosed {kind : TagKind} (hkind : kind ≠ .comment) {c : Char} {front rest : List Char}
    (hword : Word c front) (hcloser : ¬ kind.closer <+: c :: (front ++ (rest ++ kind.closer)))
    (hrest : Unclosed kind rest) : Unclosed kind (c :: (front ++ rest)) := by
  cases hword with
  | literal hquote hquoted => exact .literal hkind hquote hquoted hrest
  | bare hquote hfront _ =>
      exact .plain (fun _ => hquote) (by rwa [List.append_assoc]) (unclosed_names hfront hrest)

namespace Inside

variable {kind : TagKind} {after inside : List Char} {trim : Bool} {position : Nat}
  {placements : List Placement}

/-- The dash of the closing delimiter is the last character inside of the tag. -/
theorem trim_eq (hinside : Inside kind after trim position inside placements) :
    trim = (inside.getLast? == some '-') := by
  induction hinside with
  | close => rfl
  | dash => rfl
  | @blank _ _ c inside _ hblank _ ih =>
      rw [ih, ← getLast?_append_eq_dash (getLast?_of_isBlank hblank) inside, List.singleton_append]
  | @word _ _ c front inside _ _ _ _ _ hword _ ih =>
      rw [ih, ← getLast?_append_eq_dash hword.getLast?_ne_dash inside, List.cons_append]

theorem unclosed (hkind : kind ≠ .comment)
    (hinside : Inside kind after trim position inside placements) : Unclosed kind inside := by
  induction hinside with
  | close => exact .nil
  | dash =>
      refine .plain (fun _ => rfl) ?_ .nil
      cases kind <;> exact fun hstarts => absurd (List.cons_prefix_cons.mp hstarts).1 (by decide)
  | @blank _ _ c inside _ hblank _ ih =>
      refine .plain (fun _ => isQuote_of_isBlank hblank) ?_ ih
      cases kind <;>
        · intro hstarts
          obtain ⟨rfl, -⟩ := List.cons_prefix_cons.mp hstarts
          cases hblank
  | word hcloser _ _ hword _ ih => exact hword.unclosed hkind hcloser ih

/-- Inside of a tag there are no tokens but its end and those of expressions. -/
theorem exists_kinds (hinside : Inside kind after trim position inside placements) :
    ∃ kinds : List TokenKind, placements.map Placement.kind = kinds ++ [kind.endToken] ∧
      ∀ found ∈ kinds, found.isInner = true := by
  induction hinside with
  | close => exact ⟨[], rfl, nofun⟩
  | dash => exact ⟨[], rfl, nofun⟩
  | blank _ _ ih => exact ih
  | word _ _ hinner _ _ ih =>
      obtain ⟨kinds, htokens, hkinds⟩ := ih
      exact ⟨_ :: kinds, congrArg (List.cons _) htokens, List.forall_mem_cons.mpr ⟨hinner, hkinds⟩⟩

end Inside

end TemplateMessages.Template

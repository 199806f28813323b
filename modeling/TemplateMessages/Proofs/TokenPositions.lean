import TemplateMessages.Proofs.SourceLayout

/-!
# Where tokens stand

Every token but the end of the source has a first character that is kept: of a text
the first one that no tag trims, of a closing delimiter the dash if it has one.  The
tokens come in the order of these positions, no two at the same one, and the line of
each is that of its position.
-/

namespace TemplateMessages.Template

/-- A text starts with a token of a kind. -/
def TokenKind.Fronts (kind : TokenKind) (text : List Char) : Prop :=
  match kind with
  | .text data => data ≠ "" ∧ data.toList <+: text
  | .varStart => ['{', '{'] <+: text
  | .varEnd => ['}', '}'] <+: text ∨ ['-', '}', '}'] <+: text
  | .blockStart => ['{', '%'] <+: text
  | .blockEnd => ['%', '}'] <+: text ∨ ['-', '%', '}'] <+: text
  | .eof => False
  | kind => ∃ c rest length, text = c :: rest ∧ lexeme c rest = .ok (kind, length)

theorem TagKind.fronts_startToken {kind : TagKind} (hkind : kind ≠ .comment) (behind : List Char) :
    kind.startToken.Fronts ('{' :: kind.mark :: behind) := by
  cases kind with
  | comment => exact absurd rfl hkind
  | print => exact ⟨behind, rfl⟩
  | block => exact ⟨behind, rfl⟩

theorem TagKind.fronts_endToken {kind : TagKind} (hkind : kind ≠ .comment) (after : List Char) :
    kind.endToken.Fronts (kind.closer ++ after) := by
  cases kind with
  | comment => exact absurd rfl hkind
  | print => exact .inl ⟨after, rfl⟩
  | block => exact .inl ⟨after, rfl⟩

theorem TagKind.fronts_endToken_dash {kind : TagKind} (hkind : kind ≠ .comment)
    (after : List Char) : kind.endToken.Fronts ('-' :: (kind.closer ++ after)) := by
  cases kind with
  | comment => exact absurd rfl hkind
  | print => exact .inr ⟨after, rfl⟩
  | block => exact .inr ⟨after, rfl⟩

theorem TokenKind.fronts_of_lexeme {c : Char} {rest : List Char} {token : TokenKind} {length : Nat}
    (hinner : token.isInner = true) (hlexeme : lexeme c rest = .ok (token, length)) :
    token.Fronts (c :: rest) := by
  cases token with
  | name => exact ⟨c, rest, length, rfl, hlexeme⟩
  | number => exact ⟨c, rest, length, rfl, hlexeme⟩
  | str => exact ⟨c, rest, length, rfl, hlexeme⟩
  | punct => exact ⟨c, rest, length, rfl, hlexeme⟩
  | _ => cases hinner

/-! ## Tokens on a stretch of a source -/

/-- The tokens stand on a stretch of a source, in its order and each at a position of its own. -/
structure Placed (source : List Char) (low high : Nat) (placements : List Placement) : Prop where
  bounds : ∀ placement ∈ placements, low ≤ placement.position ∧ placement.position < high
  increasing : (placements.map Placement.position).Pairwise (· < ·)
  fronts : ∀ placement ∈ placements, placement.kind.Fronts (source.drop placement.position)

namespace Placed

variable {source : List Char} {low middle high position : Nat} {kind : TokenKind}
  {placements others : List Placement}

theorem nil : Placed source low high [] :=
  ⟨nofun, .nil, nofun⟩

theorem single (hlow : low ≤ position) (hhigh : position < high)
    (hfronts : kind.Fronts (source.drop position)) : Placed source low high [⟨kind, position⟩] where
  bounds := List.forall_mem_singleton.mpr ⟨hlow, hhigh⟩
  increasing := List.pairwise_singleton _ _
  fronts := List.forall_mem_singleton.mpr hfronts

theorem mono {lower higher : Nat} (hlower : lower ≤ low) (hhigher : high ≤ higher)
    (hplaced : Placed source low high placements) : Placed source lower higher placements where
  bounds placement hmem := by
    obtain ⟨hlow, hhigh⟩ := hplaced.bounds placement hmem
    exact ⟨hlower.trans hlow, hhigh.trans_le hhigher⟩
  increasing := hplaced.increasing
  fronts := hplaced.fronts

theorem append (hlow : low ≤ middle) (hhigh : middle ≤ high)
    (hplaced : Placed source low middle placements) (hothers : Placed source middle high others) :
    Placed source low high (placements ++ others) where
  bounds := List.forall_mem_append.mpr
    ⟨(hplaced.mono (Nat.le_refl _) hhigh).bounds, (hothers.mono hlow (Nat.le_refl _)).bounds⟩
  increasing := by
    rw [List.map_append, List.pairwise_append]
    refine ⟨hplaced.increasing, hothers.increasing, ?_⟩
    simp only [List.forall_mem_map]
    intro first hfirst second hsecond
    exact (hplaced.bounds first hfirst).2.trans_le (hothers.bounds second hsecond).1
  fronts := List.forall_mem_append.mpr ⟨hplaced.fronts, hothers.fronts⟩

end Placed

theorem drop_add_of_eq_append {source rest : List Char} {position : Nat} (front : List Char)
    (htext : source.drop position = front ++ rest) :
    source.drop (position + front.length) = rest := by
  rw [← List.drop_drop, htext, List.drop_left]

theorem Inside.placed {source after inside : List Char} {kind : TagKind} {trim : Bool}
    {position : Nat} {placements : List Placement} (hkind : kind ≠ .comment)
    (hinside : Inside kind after trim position inside placements)
    (htext : source.drop position = inside ++ (kind.closer ++ after)) :
    Placed source position (position + (inside ++ kind.closer).length) placements := by
  have hcloser : 0 < kind.closer.length := by cases kind <;> exact Nat.succ_pos _
  induction hinside with
  | @close position =>
      refine .single (Nat.le_refl _) (by simpa using hcloser) ?_
      rw [htext]
      exact kind.fronts_endToken hkind after
  | @dash position =>
      refine .single (Nat.le_refl _) (by simp) ?_
      rw [htext]
      exact kind.fronts_endToken_dash hkind after
  | @blank trim position c inside placements _ _ ih =>
      have hrest := ih (drop_add_of_eq_append [c] htext)
      refine hrest.mono (Nat.le_succ _) ?_
      simp only [List.cons_append, List.length_cons]
      omega
  | @word trim position c front inside token placements _ hlexeme hinner _ _ ih =>
      have hword : source.drop position = (c :: front) ++ (inside ++ (kind.closer ++ after)) := by
        rw [htext, ← List.cons_append, List.append_assoc]
      have hrest := ih (drop_add_of_eq_append (c :: front) hword)
      have hfirst : Placed source position (position + (front.length + 1)) [⟨token, position⟩] := by
        refine .single (Nat.le_refl _) (by omega) ?_
        rw [hword]
        exact TokenKind.fronts_of_lexeme hinner hlexeme
      refine (hfirst.append (Nat.le_add_right _ _) (Nat.le_add_right _ _) hrest).mono
        (Nat.le_refl _) ?_
      simp only [List.cons_append, List.length_cons, List.length_append]
      omega

theorem SourceTag.Reads.placed {source after : List Char} {tag : SourceTag} {position : Nat}
    {placements : List Placement} (hreads : tag.Reads after position placements)
    (htext : source.drop position = tag.text ++ after) :
    Placed source position (position + tag.text.length) placements := by
  rw [SourceTag.text, List.append_assoc] at htext
  cases hreads with
  | comment => exact .nil
  | @delimited inner hkind hinside =>
      rw [List.append_assoc] at htext
      have hinner := hinside.placed hkind (drop_add_of_eq_append _ htext)
      have hopener : 0 < tag.opener.length := Nat.succ_pos _
      have hfirst : Placed source position (position + tag.opener.length)
          [⟨tag.kind.startToken, position⟩] := by
        refine .single (Nat.le_refl _) (Nat.lt_add_of_pos_right hopener) ?_
        rw [htext]
        exact tag.kind.fronts_startToken hkind _
      rw [SourceTag.text, List.length_append, ← Nat.add_assoc]
      exact hfirst.append (Nat.le_add_right _ _) (Nat.le_add_right _ _) hinner

theorem trimmedFront_isSuffix (before : Option SourceTag) (run : List Char) :
    trimmedFront before run <:+ run := by
  rw [trimmedFront_eq]
  split
  case isTrue => exact (List.dropWhile_suffix _).trans (List.drop_suffix _ _)
  case isFalse => exact List.drop_suffix _ _

theorem keptText_isPrefix (before : Option SourceTag) (run : List Char) (next : Option SourceTag) :
    keptText before run next <+: trimmedFront before run := by
  unfold keptText
  split
  case isTrue => exact Text.stripEnd_isPrefix _ _
  case isFalse => exact List.prefix_rfl

theorem placed_textPlacements {source run behind : List Char} {position : Nat}
    (htext : source.drop position = run ++ behind) (before next : Option SourceTag) :
    Placed source position (position + run.length) (textPlacements before position run next) := by
  unfold textPlacements
  split
  case isTrue => exact .nil
  case isFalse hne =>
    obtain ⟨lost, hlost⟩ := trimmedFront_isSuffix before run
    have hkept := keptText_isPrefix before run next
    have hpos : 0 < (trimmedFront before run).length :=
      (List.length_pos_iff.mpr hne).trans_le hkept.length_le
    have hlength : run.length - (trimmedFront before run).length = lost.length := by
      rw [← congrArg List.length hlost, List.length_append, Nat.add_sub_cancel]
    have hbound : lost.length + (trimmedFront before run).length = run.length := by
      rw [← List.length_append, hlost]
    rw [hlength]
    refine .single (Nat.le_add_right _ _) (by omega) ⟨?_, ?_⟩
    · rwa [ne_eq, ← String.toList_eq_nil_iff, String.toList_ofList]
    · rw [← hlost, List.append_assoc] at htext
      rw [drop_add_of_eq_append _ htext, String.toList_ofList]
      exact hkept.trans (List.prefix_append _ _)

theorem Layout.placed {source text : List Char} {before : Option SourceTag} {position : Nat}
    {placements : List Placement} (hlayout : Layout before position text placements)
    (htext : source.drop position = text) :
    Placed source position (position + text.length) placements := by
  induction hlayout with
  | @last before position run _ =>
      rw [← List.append_nil run] at htext
      exact placed_textPlacements htext before none
  | @tag before position run rest tag inner placements _ hreads _ ih =>
      have hrun := placed_textPlacements htext before (some tag)
      have htag := drop_add_of_eq_append _ htext
      have hrest := ih (drop_add_of_eq_append _ htag)
      have hothers := (hreads.placed htag).append (Nat.le_add_right _ _)
        (Nat.le_add_right _ _) hrest
      rw [Nat.add_assoc (position + run.length), ← List.length_append] at hothers
      rw [List.length_append, ← Nat.add_assoc]
      exact hrun.append (Nat.le_add_right _ _) (Nat.le_add_right _ _) hothers

/-! ## The tokens of a source -/

/-- The tokens of a source stand where its layout has them, each with the line of its position, and
the end of the source has the line behind its last line feed. -/
structure Locates (source : List Char) (placements : List Placement) (tokens : List Token) :
    Prop where
  layout : Layout none 0 source placements
  increasing : (placements.map Placement.position).Pairwise (· < ·)
  fronts : ∀ placement ∈ placements, placement.kind.Fronts (source.drop placement.position)
  tokens_eq : tokens =
    placements.map (Placement.token source) ++ [⟨.eof, 1 + countLineFeeds source⟩]

theorem tokenize_locates {source : String} {tokens : List Token}
    (htokens : tokenize source = .ok tokens) :
    ∃ placements, Locates source.toList placements tokens := by
  obtain ⟨placements, hlayout, rfl⟩ := layout_of_tokenize htokens
  have hplaced : Placed source.toList 0 (0 + source.toList.length) placements :=
    hlayout.placed rfl
  exact ⟨placements, hlayout, hplaced.increasing, hplaced.fronts, rfl⟩

/-- A comment that trims the text behind it, a print tag with dashes and a string over two lines,
and a block tag that takes one line feed of two along. -/
def notice : String :=
  "Dear \x7b# guest\nlist -#\x7d \n \x7b\x7b- 'a\n\x7d\x7d' -\x7d\x7d\n,\x7b% x %\x7d\n\n"

def noticeTokens : List Token :=
  [⟨.text "Dear ", 1⟩, ⟨.varStart, 3⟩, ⟨.str "a\n\x7d\x7d", 3⟩, ⟨.varEnd, 4⟩, ⟨.text ",", 5⟩,
    ⟨.blockStart, 5⟩, ⟨.name "x", 5⟩, ⟨.blockEnd, 5⟩, ⟨.text "\n", 6⟩, ⟨.eof, 7⟩]

theorem tokenize_locates_notice :
    tokenize notice = .ok noticeTokens ∧
      ∃ placements, Locates notice.toList placements noticeTokens :=
  ⟨by decide +kernel, tokenize_locates (by decide +kernel)⟩

end TemplateMessages.Template

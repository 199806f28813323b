import TemplateMessages.Proofs.TagWalk

/-!
# Sources as texts and tags

A source is a text, a tag, a text, and so on to a last text.  Behind a tag that
closes with a dash a text loses the blanks at its start, behind another comment or
block tag one line feed; in front of a tag that opens with a dash it loses the blanks
at its end.  What is left of it, if anything, is one token, at the first character
that is left.
-/

namespace TemplateMessages.Template

/-! ## What is left of a text -/

def dropLineFeed : List Char → List Char
  | '\n' :: rest => rest
  | text => text

/-- A text without what it loses to the tag in front of it. -/
def trimmedFront (before : Option SourceTag) (run : List Char) : List Char :=
  match before with
  | none => run
  | some tag =>
      if tag.closesWithDash then Text.stripStart Text.isBlank run
      else if tag.kind = .print then run
      else dropLineFeed run

/-- A text without what it loses to the tags around it. -/
def keptText (before : Option SourceTag) (run : List Char) (next : Option SourceTag) : List Char :=
  if next.any SourceTag.opensWithDash then Text.stripEnd Text.isBlank (trimmedFront before run)
  else trimmedFront before run

/-- The token of a text that stands at a position. -/
def textPlacements (before : Option SourceTag) (position : Nat) (run : List Char)
    (next : Option SourceTag) : List Placement :=
  if keptText before run next = [] then []
  else [⟨.text (String.ofList (keptText before run next)),
    position + (run.length - (trimmedFront before run).length)⟩]

/-! ## Sources and their layout -/

/-- The tokens of a tag that stands at a position, in front of what is behind it: none for a
comment. -/
inductive SourceTag.Reads (tag : SourceTag) (after : List Char) (position : Nat) :
    List Placement → Prop
  | comment : tag.kind = .comment → tag.Complete → Reads tag after position []
  | delimited {inner : List Placement} : tag.kind ≠ .comment →
      Inside tag.kind after tag.closesWithDash (position + tag.opener.length) tag.inside inner →
      Reads tag after position (⟨tag.kind.startToken, position⟩ :: inner)

/-- The tokens of the rest of a source from a position on, behind a tag or, at the start of the
source, behind none. -/
inductive Layout : Option SourceTag → Nat → List Char → List Placement → Prop
  | last {before : Option SourceTag} {position : Nat} {run : List Char} :
      Plain run [] → Layout before position run (textPlacements before position run none)
  | tag {before : Option SourceTag} {position : Nat} {run rest : List Char} {tag : SourceTag}
      {inner placements : List Placement} :
      Plain run (tag.text ++ rest) → tag.Reads rest (position + run.length) inner →
      Layout (some tag) (position + run.length + tag.text.length) rest placements →
      Layout before position (run ++ (tag.text ++ rest))
        (textPlacements before position run (some tag) ++ (inner ++ placements))

/-! ## The walk over a text -/

/-- How many characters the walk skips behind a tag. -/
def skipped (before : Option SourceTag) (after : List Char) : Nat :=
  before.elim 0 fun tag => tag.kind.taken tag.closesWithDash after

/-- The walk over a text that stands behind a tag. -/
def scanBehind (before : Option SourceTag) (line : Nat) (text : List Char) :
    Except SyntaxError (List Token) :=
  scan (.text (before.any SourceTag.closesWithDash)) (skipped before text) line text

theorem takenLineFeed_le (trim : Bool) (after : List Char) :
    takenLineFeed trim after ≤ after.length := by
  unfold takenLineFeed
  split
  case isTrue hfeed =>
    cases after with
    | nil => simp at hfeed
    | cons => exact Nat.succ_le_succ (Nat.zero_le _)
  case isFalse => exact Nat.zero_le _

theorem TagKind.taken_le (kind : TagKind) (trim : Bool) (after : List Char) :
    kind.taken trim after ≤ after.length := by
  unfold TagKind.taken
  split
  case isTrue => exact Nat.zero_le _
  case isFalse => exact takenLineFeed_le trim after

theorem skipped_le (before : Option SourceTag) (after : List Char) :
    skipped before after ≤ after.length := by
  cases before with
  | none => exact Nat.zero_le _
  | some tag => exact tag.kind.taken_le _ after

/-- A tag does not open with a line feed, so none of it is skipped. -/
theorem skipped_append (before : Option SourceTag) (run : List Char) {behind : List Char}
    (hbehind : behind.head? ≠ some '\n') :
    skipped before (run ++ behind) = skipped before run := by
  have hhead : ((run ++ behind).head? == some '\n') = (run.head? == some '\n') := by
    cases run with
    | nil => exact beq_eq_false_iff_ne.mpr hbehind
    | cons => rfl
  cases before with
  | none => rfl
  | some tag => simp only [skipped, Option.elim, TagKind.taken, takenLineFeed, hhead]

theorem drop_takenLineFeed (run : List Char) :
    run.drop (takenLineFeed false run) = dropLineFeed run := by
  unfold dropLineFeed
  split
  case h_1 => rfl
  case h_2 hfeed =>
    have hhead : run.head? ≠ some '\n' := by
      intro hhead
      obtain ⟨rest, rfl⟩ := List.head?_eq_some_iff.mp hhead
      exact hfeed rest rfl
    simp [takenLineFeed, hhead]

theorem trimmedFront_eq (before : Option SourceTag) (run : List Char) :
    trimmedFront before run =
      if before.any SourceTag.closesWithDash then
        Text.stripStart Text.isBlank (run.drop (skipped before run))
      else run.drop (skipped before run) := by
  cases before with
  | none => rfl
  | some tag =>
      simp only [trimmedFront, skipped, Option.elim, Option.any_some, TagKind.taken]
      by_cases hdash : tag.closesWithDash = true
      · simp [hdash, takenLineFeed]
      · rw [if_neg hdash, if_neg hdash, Bool.eq_false_iff.mpr hdash]
        split
        case isTrue => rfl
        case isFalse => exact (drop_takenLineFeed run).symm

/-- The token of a text, with what it loses at its start found before what it loses at its end. -/
theorem textToken_eq_ite (trimStart trimEnd : Bool) (line : Nat) (run : List Char) :
    textToken trimStart trimEnd line run =
      let front := if trimStart then Text.stripStart Text.isBlank run else run
      let kept := if trimEnd then Text.stripEnd Text.isBlank front else front
      if kept = [] then []
      else [⟨.text (String.ofList kept),
        line + countLineFeeds (run.take (run.length - front.length))⟩] := by
  unfold textToken
  cases trimStart with
  | false => cases trimEnd <;> simp
  | true =>
      cases trimEnd with
      | false => simp
      | true =>
          have hkept : Text.stripStart Text.isBlank (Text.stripEnd Text.isBlank run) =
              Text.strip Text.isBlank run := Text.stripStart_stripEnd run
          simp only [if_true, List.isEmpty_iff, Text.take_length_sub_stripStart]
          rw [hkept, ← Text.strip]
          split
          case isTrue => rfl
          case isFalse hne => rw [Text.takeWhile_stripEnd hne]

theorem textToken_eq {source run behind : List Char} {position line : Nat}
    (hstands : Stands source position line (run ++ behind)) (before next : Option SourceTag) :
    textToken (before.any SourceTag.closesWithDash) (next.any SourceTag.opensWithDash)
        (line + countLineFeeds (run.take (skipped before run))) (run.drop (skipped before run)) =
      (textPlacements before position run next).map (Placement.token source) := by
  rw [textToken_eq_ite, ← trimmedFront_eq]
  dsimp only
  rw [← keptText, textPlacements]
  split
  case isTrue => rfl
  case isFalse =>
    have hfront : (trimmedFront before run).length ≤ (run.drop (skipped before run)).length := by
      rw [trimmedFront_eq]
      split
      case isTrue => exact (List.dropWhile_suffix _).length_le
      case isFalse => exact Nat.le_refl _
    have hskipped := skipped_le before run
    have hlost : run.length - (trimmedFront before run).length = skipped before run +
        ((run.drop (skipped before run)).length - (trimmedFront before run).length) := by
      rw [List.length_drop] at hfront ⊢
      omega
    rw [List.map_singleton, Nat.add_assoc, ← countLineFeeds_append, ← List.take_add, ← hlost,
      Placement.token, hstands.lineAt_add (Nat.sub_le _ _)]

theorem scan_taken {skip : Nat} {run : List Char} (hskip : skip ≤ run.length) (place : Place)
    (line : Nat) (behind : List Char) :
    scan place skip line (run ++ behind) =
      scan place 0 (line + countLineFeeds (run.take skip)) (run.drop skip ++ behind) := by
  have hscan := scan_skip place line (run.take skip) (run.drop skip ++ behind)
  rwa [List.length_take_of_le hskip, ← List.append_assoc, List.take_append_drop] at hscan

theorem textToken_nil (trimStart trimEnd : Bool) (line : Nat) :
    textToken trimStart trimEnd line [] = [] := by
  cases trimStart <;> cases trimEnd <;> rfl

/-- What is asked of the next text does not matter where a tag opens. -/
theorem scan_opener (trim : Bool) (line : Nat) (kind : TagKind) (behind : List Char) :
    scan (.text trim) 0 line ('{' :: kind.mark :: behind) =
      scan (.text false) 0 line ('{' :: kind.mark :: behind) := by
  rw [scan, scan, splitTag_opener]

/-- A text in front of something else is one token, less what is trimmed. -/
theorem scan_run {run behind : List Char} {tag : Option (TagKind × List Char)} (hrun : run ≠ [])
    (hsplit : splitTag (run ++ behind) = (run, tag)) (trim : Bool) (line : Nat) :
    scan (.text trim) 0 line (run ++ behind) =
      (textToken trim (tag.any fun found => startsWithDash found.2) line run ++ ·) <$>
        scan (.text false) 0 (line + countLineFeeds run) behind := by
  obtain ⟨c, rest, rfl⟩ := List.exists_cons_of_ne_nil hrun
  rw [List.cons_append] at hsplit ⊢
  rw [scan, hsplit]
  dsimp only
  rw [List.length_cons, Nat.add_sub_cancel, scan_skip, next_add_countLineFeeds]
  cases tag <;> rfl

theorem scan_last {run : List Char} (hplain : Plain run []) (trim : Bool) (line : Nat) :
    scan (.text trim) 0 line run =
      .ok (textToken trim false line run ++ [⟨.eof, line + countLineFeeds run⟩]) := by
  by_cases hrun : run = []
  · subst hrun
    rw [textToken_nil]
    rfl
  · have hsplit : splitTag (run ++ []) = (run, none) :=
      (splitTag_append hplain).trans (by rw [splitTag, List.append_nil])
    have hscan := scan_run hrun hsplit trim line
    rw [List.append_nil] at hscan
    rw [hscan]
    rfl

theorem scan_front {run behind : List Char} {kind : TagKind}
    (hplain : Plain run ('{' :: kind.mark :: behind)) (trim : Bool) (line : Nat) :
    scan (.text trim) 0 line (run ++ '{' :: kind.mark :: behind) =
      (textToken trim (startsWithDash behind) line run ++ ·) <$>
        scan (.text false) 0 (line + countLineFeeds run) ('{' :: kind.mark :: behind) := by
  by_cases hrun : run = []
  · subst hrun
    rw [textToken_nil, List.nil_append, scan_opener]
    exact (id_map _).symm
  · have hsplit := splitTag_append hplain
    rw [splitTag_opener, List.append_nil] at hsplit
    exact scan_run hrun hsplit trim line

/-- The walk over the last text of a source. -/
theorem scanBehind_last {before : Option SourceTag} {run : List Char} (hplain : Plain run [])
    (line : Nat) :
    scanBehind before line run =
      .ok (textToken (before.any SourceTag.closesWithDash) false
        (line + countLineFeeds (run.take (skipped before run))) (run.drop (skipped before run)) ++
          [⟨.eof, line + countLineFeeds run⟩]) := by
  have hscan := scan_taken (skipped_le before run)
    (.text (before.any SourceTag.closesWithDash)) line []
  rw [List.append_nil, List.append_nil, scan_last (hplain.drop _), Nat.add_assoc,
    ← countLineFeeds_append, List.take_append_drop] at hscan
  exact hscan

/-- The walk over a text in front of a tag. -/
theorem scanBehind_front {before : Option SourceTag} {run behind : List Char} {kind : TagKind}
    (hplain : Plain run ('{' :: kind.mark :: behind)) (line : Nat) :
    scanBehind before line (run ++ '{' :: kind.mark :: behind) =
      (textToken (before.any SourceTag.closesWithDash) (startsWithDash behind)
        (line + countLineFeeds (run.take (skipped before run))) (run.drop (skipped before run)) ++ ·)
        <$> scan (.text false) 0 (line + countLineFeeds run) ('{' :: kind.mark :: behind) := by
  rw [scanBehind, skipped_append before run (by simp), scan_taken (skipped_le before run),
    scan_front (hplain.drop _), Nat.add_assoc, ← countLineFeeds_append, List.take_append_drop]

/-! ## The walk over a tag -/

theorem length_openingDash (opened : Bool) :
    (openingDash opened).length = if opened then 1 else 0 := by
  cases opened <;> rfl

theorem head?_ne_of_append {front rest : List Char} {c : Char}
    (hhead : (front ++ rest).head? ≠ some c) : front.head? ≠ some c := by
  intro hfront
  rw [List.head?_append, hfront, Option.some_or] at hhead
  exact hhead rfl

/-- The walk passes over a comment up to its first closing delimiter. -/
theorem scan_comment {opened : Bool} {enclosed : List Char}
    (hdash : opened = false → enclosed.head? ≠ some '-') (line : Nat) :
    scan (.text false) 0 line
        ('{' :: TagKind.comment.mark :: (openingDash opened ++ enclosed)) =
      match splitCloser TagKind.comment.closer enclosed with
      | none => .error (.onLine line .unclosedComment)
      | some (inside, after) =>
          scan (.text (inside.getLast? == some '-'))
            (takenLineFeed (inside.getLast? == some '-') after)
            (line + countLineFeeds ('{' :: TagKind.comment.mark ::
              (openingDash opened ++ (inside ++ TagKind.comment.closer)))) after := by
  rw [scan, splitTag_opener]
  dsimp only
  rw [if_pos rfl, startsWithDash_openingDash hdash, ← length_openingDash, List.drop_left]
  cases hsplit : splitCloser TagKind.comment.closer enclosed with
  | none => rfl
  | some found =>
      obtain ⟨inside, after⟩ := found
      obtain ⟨rfl, -⟩ := splitCloser_eq_some hsplit
      -- The walk skips all of the comment but the brace that it stands on.
      have hfront : TagKind.comment.mark ::
          (openingDash opened ++ (inside ++ (TagKind.comment.closer ++ after))) =
          TagKind.comment.mark ::
            (openingDash opened ++ (inside ++ TagKind.comment.closer)) ++ after := by
        simp
      have hlength : (openingDash opened).length + inside.length + 3 =
          (TagKind.comment.mark ::
            (openingDash opened ++ (inside ++ TagKind.comment.closer))).length := by
        simp [TagKind.closer, Nat.add_assoc]
      dsimp only
      rw [hfront, hlength, scan_skip_add, next_add_countLineFeeds]

/-- The walk goes into a print or block tag behind its opener. -/
theorem scan_delimited {kind : TagKind} (hkind : kind ≠ .comment) {opened : Bool}
    {enclosed : List Char} (hdash : opened = false → enclosed.head? ≠ some '-') (line : Nat) :
    scan (.text false) 0 line ('{' :: kind.mark :: (openingDash opened ++ enclosed)) =
      (scan (.tag kind line) 0
        (line + countLineFeeds ('{' :: kind.mark :: openingDash opened)) enclosed).map
          (⟨kind.startToken, line⟩ :: ·) := by
  rw [scan, splitTag_opener]
  dsimp only
  rw [if_neg hkind, startsWithDash_openingDash hdash, ← length_openingDash, ← List.length_cons,
    ← List.cons_append, scan_skip, next_add_countLineFeeds]

/-- What a walk that stands at a tag finds in it, and where it goes on. -/
def ReadsTag (source : List Char) (position line : Nat) (text : List Char) (opened : Bool)
    (tokens : List Token) : Prop :=
  ∃ tag : SourceTag, ∃ after inner others,
    text = tag.text ++ after ∧ tag.opensWithDash = opened ∧ tag.Reads after position inner ∧
      tokens = inner.map (Placement.token source) ++ others ∧
      scanBehind (some tag) (line + countLineFeeds tag.text) after = .ok others

variable {source : List Char} {position line : Nat}

theorem readsTag_of_comment {opened : Bool} {enclosed : List Char} {tokens : List Token}
    (hdash : opened = false → enclosed.head? ≠ some '-')
    (hscan : scan (.text false) 0 line
      ('{' :: TagKind.comment.mark :: (openingDash opened ++ enclosed)) = .ok tokens) :
    ReadsTag source position line ('{' :: TagKind.comment.mark :: (openingDash opened ++ enclosed))
      opened tokens := by
  rw [scan_comment hdash] at hscan
  cases hsplit : splitCloser TagKind.comment.closer enclosed with
  | none =>
      rw [hsplit] at hscan
      cases hscan
  | some found =>
      obtain ⟨inside, after⟩ := found
      rw [hsplit] at hscan
      obtain ⟨rfl, hunclosed⟩ := splitCloser_eq_some hsplit
      refine ⟨⟨.comment, opened, inside, fun h => head?_ne_of_append (hdash h)⟩, after, [], tokens,
        ?_, rfl, .comment rfl hunclosed, rfl, hscan⟩
      rw [SourceTag.text_append]

theorem readsTag_of_delimited {kind : TagKind} (hkind : kind ≠ .comment) {opened : Bool}
    {enclosed : List Char} {tokens : List Token}
    (hdash : opened = false → enclosed.head? ≠ some '-')
    (hstands : Stands source position line ('{' :: kind.mark :: (openingDash opened ++ enclosed)))
    (hscan : scan (.text false) 0 line ('{' :: kind.mark :: (openingDash opened ++ enclosed)) =
      .ok tokens) :
    ReadsTag source position line ('{' :: kind.mark :: (openingDash opened ++ enclosed)) opened
      tokens := by
  rw [scan_delimited hkind hdash] at hscan
  obtain ⟨found, hfound, rfl⟩ := map_eq_ok.mp hscan
  have hinner := hstands.pass ('{' :: kind.mark :: openingDash opened)
  obtain ⟨trim, inside, after, inner, others, rfl, hinside, rfl, hothers⟩ :=
    leavesTag_of_scan hkind hinner hfound
  obtain rfl := hinside.trim_eq
  refine ⟨⟨kind, opened, inside, fun h => head?_ne_of_append (hdash h)⟩, after, _ :: inner, others,
    ?_, rfl, .delimited hkind hinside, ?_, ?_⟩
  · rw [SourceTag.text_append]
  · rw [List.map_cons, hstands.token_eq, List.cons_append]
  · rw [SourceTag.text, countLineFeeds_append, ← Nat.add_assoc]
    exact hothers

theorem readsTag_of_scan {kind : TagKind} {behind : List Char} {tokens : List Token}
    (hstands : Stands source position line ('{' :: kind.mark :: behind))
    (hscan : scan (.text false) 0 line ('{' :: kind.mark :: behind) = .ok tokens) :
    ReadsTag source position line ('{' :: kind.mark :: behind) (startsWithDash behind) tokens := by
  obtain ⟨opened, enclosed, rfl, hdash⟩ := exists_openingDash behind
  rw [startsWithDash_openingDash hdash]
  by_cases hkind : kind = .comment
  · subst hkind
    exact readsTag_of_comment hdash hscan
  · exact readsTag_of_delimited hkind hdash hstands hscan

/-! ## The walk over a source -/

theorem layout_of_scan {before : Option SourceTag} {text : List Char} {tokens : List Token}
    (hstands : Stands source position line text)
    (hscan : scanBehind before line text = .ok tokens) :
    ∃ placements, Layout before position text placements ∧
      tokens = placements.map (Placement.token source) ++ [⟨.eof, 1 + countLineFeeds source⟩] := by
  induction hlength : text.length using Nat.strong_induction_on
    generalizing before text position line tokens with
  | _ length ih =>
      subst hlength
      rcases plain_or_exists_tag text with hplain | ⟨run, kind, behind, rfl, hplain⟩
      · rw [scanBehind_last hplain, hstands.line_end] at hscan
        rw [← List.append_nil text] at hstands
        have htext := textToken_eq hstands before none
        refine ⟨_, .last hplain, ?_⟩
        rw [← htext]
        exact (Except.ok.inj hscan).symm
      · rw [scanBehind_front hplain] at hscan
        obtain ⟨found, hfound, rfl⟩ := map_eq_ok.mp hscan
        obtain ⟨tag, after, inner, others, htag, hdash, hreads, rfl, hothers⟩ :=
          readsTag_of_scan (hstands.pass run) hfound
        have htext := textToken_eq hstands before (some tag)
        rw [htag] at hstands hplain ⊢
        have hshorter : after.length < (run ++ '{' :: kind.mark :: behind).length := by
          rw [htag, SourceTag.text, SourceTag.opener]
          simp only [List.length_append, List.length_cons]
          omega
        obtain ⟨placements, hlayout, rfl⟩ :=
          ih _ hshorter ((hstands.pass run).pass tag.text) hothers rfl
        refine ⟨_, .tag hplain hreads hlayout, ?_⟩
        rw [List.map_append, List.map_append, ← htext, ← hdash, Option.any_some]
        simp only [List.append_assoc]

theorem layout_of_tokenize {source : String} {tokens : List Token}
    (htokens : tokenize source = .ok tokens) :
    ∃ placements, Layout none 0 source.toList placements ∧
      tokens = placements.map (Placement.token source.toList) ++
        [⟨.eof, 1 + countLineFeeds source.toList⟩] :=
  layout_of_scan (.start source.toList) htokens

end TemplateMessages.Template

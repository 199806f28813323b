import TemplateMessages.Proofs.Trimming
import TemplateMessages.Template.Error
import TemplateMessages.Template.Lexer
import TemplateMessages.Template.TokenStream

/-!
# The lines of tokens

A token is recognised where the walk over a source stands, and the walk only
moves on, so the lines of the tokens never go back.  That a text token may lose
blanks at its front moves its line forward, but not past the tag that ends it.
-/

namespace TemplateMessages.Template

/-! ## Ascending lines -/

/-- The lines do not descend on the way from `low` to `high`. -/
def Ascends (low : Nat) : List Nat → Nat → Prop
  | [], high => low ≤ high
  | line :: rest, high => low ≤ line ∧ Ascends line rest high

namespace Ascends

variable {low middle high : Nat} {lines others : List Nat}

theorem le (hlines : Ascends low lines high) : low ≤ high := by
  induction lines generalizing low with
  | nil => exact hlines
  | cons line rest ih => exact Nat.le_trans hlines.1 (ih hlines.2)

/-- Every line on the way is between its ends. -/
theorem bounds {line : Nat} (hlines : Ascends low lines high) (hline : line ∈ lines) :
    low ≤ line ∧ line ≤ high := by
  induction lines generalizing low with
  | nil => cases hline
  | cons first rest ih =>
      obtain ⟨hfirst, hrest⟩ := hlines
      rcases List.mem_cons.mp hline with rfl | hline
      · exact ⟨hfirst, hrest.le⟩
      · exact (ih hrest hline).imp_left (Nat.le_trans hfirst)

theorem mono_left {lower : Nat} (hlower : lower ≤ low) (hlines : Ascends low lines high) :
    Ascends lower lines high := by
  cases lines with
  | nil => exact Nat.le_trans hlower hlines
  | cons line rest => exact ⟨Nat.le_trans hlower hlines.1, hlines.2⟩

theorem append (hlines : Ascends low lines middle) (hothers : Ascends middle others high) :
    Ascends low (lines ++ others) high := by
  induction lines generalizing low with
  | nil => exact hothers.mono_left hlines
  | cons line rest ih => exact ⟨hlines.1, ih hlines.2⟩

theorem of_concat {line : Nat} (hlines : Ascends low (lines ++ [line]) high) :
    Ascends low lines line := by
  induction lines generalizing low with
  | nil => exact hlines.1
  | cons first rest ih => exact ⟨hlines.1, ih hlines.2⟩

theorem pairwise (hlines : Ascends low lines high) : (low :: lines).Pairwise (· ≤ ·) := by
  induction lines generalizing low with
  | nil => exact List.pairwise_singleton _ _
  | cons line rest ih =>
      obtain ⟨hline, hrest⟩ := hlines
      have hothers := ih hrest
      refine List.pairwise_cons.mpr ⟨?_, hothers⟩
      intro other hother
      rcases List.mem_cons.mp hother with rfl | hother
      · exact hline
      · exact Nat.le_trans hline ((List.pairwise_cons.mp hothers).1 other hother)

end Ascends

/-! ## The walk over a source -/

/-- The line of the next character, and all that is behind it. -/
theorem next_add_countLineFeeds (line : Nat) (c : Char) (rest : List Char) :
    (if c = '\n' then line + 1 else line) + countLineFeeds rest =
      line + countLineFeeds (c :: rest) := by
  unfold countLineFeeds
  rw [List.count_cons]
  by_cases hfeed : c = '\n'
  · simp only [hfeed, if_true, beq_self_eq_true]
    omega
  · simp [hfeed]

theorem countLineFeeds_le_of_isPrefix {first second : List Char} (hfront : first <+: second) :
    countLineFeeds first ≤ countLineFeeds second :=
  hfront.sublist.count_le '\n'

theorem splitTag_isPrefix (text : List Char) : (splitTag text).1 <+: text := by
  induction text with
  | nil => exact List.prefix_rfl
  | cons c rest ih =>
      rw [splitTag]
      split
      case h_1 => exact List.nil_prefix
      case h_2 => exact List.cons_prefix_cons.mpr ⟨rfl, ih⟩

/-- Unless a tag comes first there is text in front of it. -/
theorem exists_of_splitTag {c : Char} {rest run : List Char} {tag : Option (TagKind × List Char)}
    (hsplit : splitTag (c :: rest) = (run, tag))
    (htag : ∀ kind after, run = [] → tag = some (kind, after) → False) :
    ∃ kept, run = c :: kept ∧ kept <+: rest := by
  rw [splitTag] at hsplit
  split at hsplit
  case h_1 kind _ =>
    obtain ⟨hrun, hkind⟩ := Prod.mk.inj hsplit
    exact (htag kind _ hrun.symm hkind.symm).elim
  case h_2 =>
    obtain ⟨rfl, -⟩ := Prod.mk.inj hsplit
    exact ⟨_, rfl, splitTag_isPrefix rest⟩

/-- The line of a text token is one of the lines of its run. -/
theorem ascends_textToken (trimStart trimEnd : Bool) (line : Nat) (run : List Char) :
    Ascends line ((textToken trimStart trimEnd line run).map (·.line)) (line + countLineFeeds run) := by
  have hshort : (if trimEnd then Text.stripEnd Text.isBlank run else run) <+: run := by
    split
    case isTrue => exact Text.stripEnd_isPrefix _ _
    case isFalse => exact List.prefix_rfl
  unfold textToken
  dsimp only
  generalize (if trimEnd then Text.stripEnd Text.isBlank run else run) = shortened at hshort ⊢
  generalize (if trimStart then Text.stripStart Text.isBlank shortened else shortened) = kept
  split
  case isTrue => exact Nat.le_add_right _ _
  case isFalse =>
    have hfeeds := countLineFeeds_le_of_isPrefix
      ((List.take_prefix (shortened.length - kept.length) shortened).trans hshort)
    exact ⟨Nat.le_add_right _ _, Nat.add_le_add_left hfeeds line⟩

/-- The tokens that a walk over a text finds have lines from the one behind what is skipped to that
of the end of the text. -/
def ScanAscends (text : List Char) : Prop :=
  ∀ {place : Place} {skip line : Nat} {tokens : List Token},
    scan place skip line text = .ok tokens →
      Ascends (line + countLineFeeds (text.take skip)) (tokens.map (·.line))
        (line + countLineFeeds text)

theorem scanAscends_nil : ScanAscends [] := by
  intro place skip line tokens hscan
  cases place with
  | text trim =>
      obtain rfl : [⟨.eof, line⟩] = tokens := Except.ok.inj hscan
      rw [List.take_nil]
      exact ⟨Nat.le_refl _, Nat.le_refl _⟩
  | tag kind start => cases hscan

namespace ScanAscends

variable {rest : List Char} {line : Nat} {c : Char} {tokens : List Token}

/-- What is behind a token ascends from where the token starts. -/
theorem behind (hrest : ScanAscends rest) {place : Place} {skip : Nat}
    (hscan : scan place skip (if c = '\n' then line + 1 else line) rest = .ok tokens) :
    Ascends line (tokens.map (·.line)) (line + countLineFeeds (c :: rest)) := by
  rw [← next_add_countLineFeeds]
  refine (hrest hscan).mono_left ?_
  split <;> omega

/-- A token that starts where the walk stands, and what is behind it. -/
theorem token (hrest : ScanAscends rest) {place : Place} {skip : Nat} {kind : TokenKind}
    (hscan : (⟨kind, line⟩ :: ·) <$>
      scan place skip (if c = '\n' then line + 1 else line) rest = .ok tokens) :
    Ascends line (tokens.map (·.line)) (line + countLineFeeds (c :: rest)) := by
  obtain ⟨others, hothers, rfl⟩ := map_eq_ok.mp hscan
  exact ⟨Nat.le_refl _, hrest.behind hothers⟩

/-- A walk that stands in the text between the tags. -/
theorem text (hrest : ScanAscends rest) {trim : Bool}
    (hscan : scan (.text trim) 0 line (c :: rest) = .ok tokens) :
    Ascends line (tokens.map (·.line)) (line + countLineFeeds (c :: rest)) := by
  rw [scan] at hscan
  dsimp only at hscan
  split at hscan
  case h_1 kind after hsplit =>
    split at hscan
    case isTrue =>
      split at hscan
      case h_1 => cases hscan
      case h_2 => exact hrest.behind hscan
    case isFalse => exact hrest.token hscan
  case h_2 run tag htag hsplit =>
    obtain ⟨others, hothers, rfl⟩ := map_eq_ok.mp hscan
    obtain ⟨kept, rfl, hkept⟩ := exists_of_splitTag hsplit htag
    have hothers := hrest hothers
    rw [List.length_cons, Nat.add_sub_cancel, ← List.prefix_iff_eq_take.mp hkept,
      next_add_countLineFeeds, next_add_countLineFeeds] at hothers
    rw [List.map_append]
    exact (ascends_textToken trim _ line (c :: kept)).append hothers

/-- A walk that stands in a tag. -/
theorem tag (hrest : ScanAscends rest) {kind : TagKind} {start : Nat}
    (hscan : scan (.tag kind start) 0 line (c :: rest) = .ok tokens) :
    Ascends line (tokens.map (·.line)) (line + countLineFeeds (c :: rest)) := by
  rw [scan] at hscan
  dsimp only at hscan
  split at hscan
  case isTrue => exact hrest.behind hscan
  case isFalse =>
    split at hscan
    case isTrue => exact hrest.token hscan
    case isFalse =>
      split at hscan
      case isTrue => exact hrest.token hscan
      case isFalse =>
        split at hscan
        case h_1 => exact hrest.token hscan
        case h_2 => cases hscan

theorem cons (hrest : ScanAscends rest) (c : Char) : ScanAscends (c :: rest) := by
  intro place skip line tokens hscan
  cases skip with
  | succ skip =>
      rw [scan] at hscan
      rw [← next_add_countLineFeeds line c rest, List.take_succ_cons, ← next_add_countLineFeeds]
      exact hrest hscan
  | zero =>
      rw [List.take_zero]
      cases place with
      | text trim => exact hrest.text hscan
      | tag kind start => exact hrest.tag hscan

end ScanAscends

theorem scanAscends (text : List Char) : ScanAscends text := by
  induction text with
  | nil => exact scanAscends_nil
  | cons c rest ih => exact ih.cons c

namespace TokenStream

/-- The lines of the tokens ahead do not descend. -/
def Ordered (stream : TokenStream) : Prop :=
  Ascends 0 (stream.ahead.map (·.line)) stream.endLine

end TokenStream

/-- The stream of a source is ordered. -/
theorem ordered_ofTokens_tokenize {source : String} {tokens : List Token}
    (htokens : tokenize source = .ok tokens) : (TokenStream.ofTokens tokens).Ordered := by
  have hlines := (scanAscends _ htokens).mono_left (Nat.zero_le _)
  unfold TokenStream.Ordered TokenStream.ofTokens
  split
  case h_1 last hlast =>
    obtain ⟨front, rfl⟩ := List.getLast?_eq_some_iff.mp hlast
    rw [List.map_append] at hlines
    have hfront : Ascends 0 (front.map (·.line)) last.line := hlines.of_concat
    dsimp only
    split
    case isTrue => rwa [List.dropLast_concat]
    case isFalse =>
      rw [List.map_append]
      exact hfront.append ⟨Nat.le_refl _, Nat.le_refl _⟩
  case h_2 => exact Nat.zero_le 1

end TemplateMessages.Template

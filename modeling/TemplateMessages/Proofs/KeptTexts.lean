import TemplateMessages.Proofs.SourceLayout

/-!
# Texts between tags

The tokens of a source alternate with its layout: what the tags around a text leave
of it is a token by itself, unless nothing is left, and the tokens of a tag are its
delimiters with those of its expressions between them.  No text gets lost otherwise,
and none comes from inside of a tag.
-/

namespace TemplateMessages.Template

/-- What a text between two tags adds to the tokens. -/
def textKinds (before : Option SourceTag) (run : List Char) (next : Option SourceTag) :
    List TokenKind :=
  if keptText before run next = [] then []
  else [.text (String.ofList (keptText before run next))]

/-- What a tag adds to the tokens, nothing if it is a comment. -/
def SourceTag.HasTokens (tag : SourceTag) (kinds : List TokenKind) : Prop :=
  if tag.kind = .comment then kinds = []
  else ∃ inner : List TokenKind, (∀ found ∈ inner, found.isInner = true) ∧
    kinds = tag.kind.startToken :: (inner ++ [tag.kind.endToken])

/-- A source alternates between texts and tags, and its tokens do with it.  No tag opens in a text,
and each tag is a complete one. -/
inductive Alternates : Option SourceTag → List Char → List TokenKind → Prop
  | last {before : Option SourceTag} {run : List Char} :
      Plain run [] → Alternates before run (textKinds before run none ++ [.eof])
  | tag {before : Option SourceTag} {run rest : List Char} {tag : SourceTag}
      {inner kinds : List TokenKind} :
      Plain run (tag.text ++ rest) → tag.Complete → tag.HasTokens inner →
      Alternates (some tag) rest kinds →
      Alternates before (run ++ (tag.text ++ rest))
        (textKinds before run (some tag) ++ (inner ++ kinds))

theorem map_kind_textPlacements (before : Option SourceTag) (position : Nat) (run : List Char)
    (next : Option SourceTag) :
    (textPlacements before position run next).map Placement.kind = textKinds before run next := by
  unfold textPlacements textKinds
  split
  case isTrue => rfl
  case isFalse => rfl

namespace SourceTag.Reads

variable {tag : SourceTag} {after : List Char} {position : Nat} {placements : List Placement}

theorem complete (hreads : tag.Reads after position placements) : tag.Complete := by
  cases hreads with
  | comment _ hcomplete => exact hcomplete
  | delimited hkind hinside => exact hinside.unclosed hkind

theorem hasTokens (hreads : tag.Reads after position placements) :
    tag.HasTokens (placements.map Placement.kind) := by
  unfold HasTokens
  cases hreads with
  | comment hkind =>
      rw [if_pos hkind]
      rfl
  | delimited hkind hinside =>
      obtain ⟨inner, hkinds, hinner⟩ := hinside.exists_kinds
      rw [if_neg hkind]
      exact ⟨inner, hinner, congrArg (List.cons _) hkinds⟩

end SourceTag.Reads

theorem Layout.alternates {before : Option SourceTag} {position : Nat} {text : List Char}
    {placements : List Placement} (hlayout : Layout before position text placements) :
    Alternates before text (placements.map Placement.kind ++ [.eof]) := by
  induction hlayout with
  | last hplain =>
      rw [map_kind_textPlacements]
      exact .last hplain
  | tag hplain hreads _ ih =>
      rw [List.map_append, List.map_append, map_kind_textPlacements, List.append_assoc,
        List.append_assoc]
      exact .tag hplain hreads.complete hreads.hasTokens ih

theorem tokenize_alternates {source : String} {tokens : List Token}
    (htokens : tokenize source = .ok tokens) :
    Alternates none source.toList (tokens.map Token.kind) := by
  obtain ⟨placements, hlayout, rfl⟩ := layout_of_tokenize htokens
  have halternates := hlayout.alternates
  rwa [List.map_append, List.map_map]

/-- A block tag with a dash in front and its closing delimiter in a string, a comment that trims
all of the text behind it, and a print tag. -/
def salutation : String :=
  "a \x7b%- x '%\x7d' %\x7d\n\n\x7b# c -#\x7d \n \x7b\x7b n \x7d\x7d\n"

def salutationTokens : List Token :=
  [⟨.text "a", 1⟩, ⟨.blockStart, 1⟩, ⟨.name "x", 1⟩, ⟨.str "%\x7d", 1⟩, ⟨.blockEnd, 1⟩,
    ⟨.text "\n", 2⟩, ⟨.varStart, 4⟩, ⟨.name "n", 4⟩, ⟨.varEnd, 4⟩, ⟨.text "\n", 4⟩, ⟨.eof, 5⟩]

theorem tokenize_alternates_salutation :
    tokenize salutation = .ok salutationTokens ∧
      Alternates none salutation.toList (salutationTokens.map Token.kind) :=
  ⟨by decide +kernel, tokenize_alternates (by decide +kernel)⟩

end TemplateMessages.Template

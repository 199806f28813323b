import Mathlib.Data.List.Chain
import TemplateMessages.Proofs.ExpressionGrammar
import TemplateMessages.Proofs.TokenEnds

/-!
# Spaces between tokens

A token of a tag may be spelled in any way that the walk over the source reads as the
token.  A tag can do without the spaces on both sides of a mark, with one exception:
in a print tag two closing braces that touch are the closing delimiter, whatever
brackets are open.  A block tag has no such exception.
-/

namespace TemplateMessages.Template

/-! ## Spellings -/

/-- A token with the characters that are read as the token in front of a space. -/
structure Spelling where
  kind : TokenKind
  first : Char
  others : List Char
  reads : lexeme first (others ++ [' ']) = .ok (kind, others.length + 1)

/-- The marks that need no space on either side. -/
def TokenKind.standsAlone : TokenKind → Bool
  | .punct mark => ['(', ')', '[', ']', '{', '}', ',', ':', '|', '='].contains mark
  | _ => false

namespace Spelling

def text (spelling : Spelling) : List Char :=
  spelling.first :: spelling.others

variable {spelling : Spelling} {mark : Char}

theorem eq_of_mark (hkind : spelling.kind = .punct mark) :
    spelling.first = mark ∧ spelling.others = [] ∧ isPunctuation mark = true := by
  have hreads := spelling.reads
  rw [hkind] at hreads
  obtain ⟨hfirst, hlength, hmark⟩ := eq_of_lexeme_mark hreads
  exact ⟨hfirst, List.eq_nil_of_length_eq_zero (Nat.succ.inj hlength), hmark⟩

theorem kind_of_first_mark (hmark : isPunctuation mark = true) (hfirst : spelling.first = mark) :
    spelling.kind = .punct mark := by
  have hreads := spelling.reads
  rw [hfirst, lexeme_mark hmark] at hreads
  exact (Prod.mk.inj (Except.ok.inj hreads)).1.symm

theorem exists_mark (halone : spelling.kind.standsAlone = true) :
    ∃ mark, spelling.kind = .punct mark ∧ isNameChar mark = false ∧ mark ≠ '.' := by
  have hmarks : ['(', ')', '[', ']', '{', '}', ',', ':', '|', '='].all
      (fun mark => !isNameChar mark && mark != '.') = true := by decide
  unfold TokenKind.standsAlone at halone
  split at halone
  case h_1 mark hkind =>
    have hmark := List.all_eq_true.mp hmarks mark (List.contains_iff_mem.mp halone)
    rw [Bool.and_eq_true, Bool.not_eq_true', bne_iff_ne] at hmark
    exact ⟨mark, hkind, hmark⟩
  case h_2 => cases halone

theorem delimits (halone : spelling.kind.standsAlone = true) (after : List Char) :
    Delimits (spelling.text ++ after) := by
  obtain ⟨mark, hkind, hmark⟩ := exists_mark halone
  obtain ⟨hfirst, -, -⟩ := eq_of_mark hkind
  intro c hc
  obtain rfl : spelling.first = c := Option.some.inj hc
  rwa [hfirst]

/-- A spelling is read in front of whatever ends a name; a mark is read in any case. -/
theorem reads_append {after : List Char}
    (hafter : spelling.kind.standsAlone = true ∨ Delimits after) :
    lexeme spelling.first (spelling.others ++ after) =
      .ok (spelling.kind, spelling.others.length + 1) := by
  rcases hafter with halone | hafter
  · obtain ⟨mark, hkind, -⟩ := exists_mark halone
    obtain ⟨hfirst, hothers, hmark⟩ := eq_of_mark hkind
    rw [hfirst, hothers, hkind, lexeme_mark hmark]
    rfl
  · exact lexeme_append spelling.reads hafter

theorem exists_word (spelling : Spelling) : Word spelling.first spelling.others := by
  obtain ⟨front, tail, htext, hlength, -, hword⟩ := exists_word_of_lexeme spelling.reads
  rwa [(List.append_inj htext (Nat.succ.inj hlength)).1]

/-- A closing delimiter starts only at a closing brace of a print tag. -/
theorem brace_of_closer {kind : TagKind} (hkind : kind ≠ .comment) {after : List Char}
    (hcloser : kind.closer <+: spelling.text ++ after) :
    kind = .print ∧ spelling.kind = .punct '}' ∧ after.head? = some '}' := by
  cases kind with
  | comment => exact absurd rfl hkind
  | print =>
      obtain ⟨hfirst, hbehind⟩ := List.cons_prefix_cons.mp hcloser
      have hbrace := kind_of_first_mark rfl hfirst.symm
      rw [(eq_of_mark hbrace).2.1] at hbehind
      obtain ⟨rest, rfl⟩ : ['}'] <+: after := hbehind
      exact ⟨rfl, hbrace, rfl⟩
  | block =>
      have hreads := spelling.reads
      rw [← (List.cons_prefix_cons.mp hcloser).1] at hreads
      cases hreads

theorem not_closer_behind_dash {kind : TagKind} (hdash : spelling.first = '-') (after : List Char) :
    ¬ kind.closer <+: spelling.others ++ after := by
  cases spelling.exists_word with
  | literal hquote =>
      rw [hdash] at hquote
      cases hquote
  | bare _ hothers hne =>
      obtain ⟨next, others, hnext⟩ := List.exists_cons_of_ne_nil (hne hdash)
      rw [hnext] at hothers ⊢
      exact not_closer_of_isNameChar (hothers next List.mem_cons_self) _

/-- The walk over a tag finds the token of a spelling, unless a brace that follows makes it the
closing delimiter. -/
theorem scan_eq {kind : TagKind} (hkind : kind ≠ .comment) {after : List Char}
    (hafter : spelling.kind.standsAlone = true ∨ Delimits after)
    (hcloser : kind = .print → spelling.kind = .punct '}' → after.head? ≠ some '}')
    (start line : Nat) :
    scan (.tag kind start) 0 line (spelling.text ++ after) =
      (scan (.tag kind start) 0 (line + countLineFeeds spelling.text) after).map
        (⟨spelling.kind, line⟩ :: ·) := by
  have hopen : ¬ kind.closer <+: spelling.first :: (spelling.others ++ after) := by
    intro hprefix
    obtain ⟨hprint, hbrace, hnext⟩ := brace_of_closer hkind hprefix
    exact hcloser hprint hbrace hnext
  rw [text, List.cons_append, scan_word (isBlank_of_lexeme spelling.reads) hopen
    fun hdash => not_closer_behind_dash hdash after, reads_append hafter]
  dsimp only
  rw [Nat.add_sub_cancel, scan_skip, Nat.add_assoc, ← countLineFeeds_cons]

end Spelling

/-! ## Tokens in a row -/

/-- Tokens one behind the other, with a space between two that are kept apart. -/
def Spelling.joined (apart : Spelling → Spelling → Bool) : List Spelling → List Char
  | [] => []
  | [spelling] => spelling.text
  | spelling :: next :: rest =>
      spelling.text ++ ((if apart spelling next then [' '] else []) ++ joined apart (next :: rest))

/-- Two closing braces that make the closing delimiter of a print tag. -/
def TagKind.ClosedBy (kind : TagKind) (first second : TokenKind) : Prop :=
  kind = .print ∧ first = .punct '}' ∧ second = .punct '}'

theorem scan_space (kind : TagKind) (start line : Nat) (text : List Char) :
    scan (.tag kind start) 0 line (' ' :: text) = scan (.tag kind start) 0 line text := rfl

theorem scan_final_closer {kind : TagKind} (hkind : kind ≠ .comment) (start line : Nat) :
    scan (.tag kind start) 0 line kind.closer = .ok [⟨kind.endToken, line⟩, ⟨.eof, line⟩] := by
  cases kind with
  | comment => exact absurd rfl hkind
  | print => rfl
  | block => rfl

theorem Spelling.exists_joined_cons (apart : Spelling → Spelling → Bool) (spelling : Spelling)
    (rest : List Spelling) : ∃ more, joined apart (spelling :: rest) = spelling.text ++ more := by
  cases rest with
  | nil => exact ⟨[], (List.append_nil _).symm⟩
  | cons => exact ⟨_, rfl⟩

/-- The walk over the first of two tokens that do not make a closing delimiter. -/
theorem Spelling.scan_joined {kind : TagKind} (hkind : kind ≠ .comment)
    {apart : Spelling → Spelling → Bool} {spelling next : Spelling}
    (halone : apart spelling next = false →
      spelling.kind.standsAlone = true ∨ next.kind.standsAlone = true)
    (hopen : apart spelling next = false → ¬ kind.ClosedBy spelling.kind next.kind) (rest : List Spelling)
    (tail : List Char) (start line : Nat) :
    scan (.tag kind start) 0 line (joined apart (spelling :: next :: rest) ++ tail) =
      (scan (.tag kind start) 0 (line + countLineFeeds spelling.text)
        (joined apart (next :: rest) ++ tail)).map (⟨spelling.kind, line⟩ :: ·) := by
  obtain ⟨more, hmore⟩ := exists_joined_cons apart next rest
  rw [joined, List.append_assoc, List.append_assoc]
  cases hapart : apart spelling next with
  | true =>
      rw [if_pos rfl, List.singleton_append, scan_eq hkind (.inr (delimits_space _)) (by simp),
        scan_space]
  | false =>
      rw [if_neg Bool.false_ne_true, List.nil_append, hmore, List.append_assoc]
      refine scan_eq hkind ((halone hapart).imp_right fun hnext => delimits hnext _) ?_ start line
      intro hprint hbrace hhead
      exact hopen hapart
        ⟨hprint, hbrace, kind_of_first_mark rfl (Option.some.inj hhead)⟩

/-- The kinds of the tokens that a walk finds. -/
def kindsOf (found : Except SyntaxError (List Token)) : Except SyntaxError (List TokenKind) :=
  found.map (·.map Token.kind)

theorem kindsOf_cons_eq_ok_iff {found : Except SyntaxError (List Token)} {token : Token}
    {kind : TokenKind} {kinds : List TokenKind} :
    kindsOf (found.map (token :: ·)) = .ok (kind :: kinds) ↔
      token.kind = kind ∧ kindsOf found = .ok kinds := by
  cases found <;> simp [kindsOf, Except.map]

/-- Where two braces make the closing delimiter the walk does not find the first of them. -/
theorem Spelling.kindsOf_scan_of_closedBy {kind : TagKind} {apart : Spelling → Spelling → Bool}
    {spelling next : Spelling} (hapart : apart spelling next = false)
    (hclosed : kind.ClosedBy spelling.kind next.kind) (rest : List Spelling) (tail : List Char)
    (start line : Nat) (kinds : List TokenKind) :
    kindsOf (scan (.tag kind start) 0 line (joined apart (spelling :: next :: rest) ++ tail)) ≠
      .ok (spelling.kind :: kinds) := by
  obtain ⟨rfl, hbrace, hnext⟩ := hclosed
  obtain ⟨hfirst, hothers, -⟩ := eq_of_mark hbrace
  obtain ⟨hfirst', hothers', -⟩ := eq_of_mark hnext
  obtain ⟨more, hmore⟩ := exists_joined_cons apart next rest
  have htext : joined apart (spelling :: next :: rest) ++ tail = '}' :: '}' :: (more ++ tail) := by
    rw [joined, hapart, hmore, text, text, hfirst, hothers, hfirst', hothers']
    rfl
  have hscan : scan (.tag .print start) 0 line ('}' :: '}' :: (more ++ tail)) =
      (scan (.text false) 1 line ('}' :: (more ++ tail))).map (⟨.varEnd, line⟩ :: ·) := rfl
  rw [htext, hscan, hbrace, ne_eq, kindsOf_cons_eq_ok_iff]
  exact fun hkinds => TokenKind.noConfusion hkinds.1

/-- The walk finds the tokens that stand in a row up to the end of the tag, if and only if no two of
them make a closing delimiter. -/
theorem Spelling.kindsOf_scan_joined_iff {kind : TagKind} (hkind : kind ≠ .comment)
    {apart : Spelling → Spelling → Bool} {spellings : List Spelling}
    (halone : spellings.IsChain fun spelling next => apart spelling next = false →
      spelling.kind.standsAlone = true ∨ next.kind.standsAlone = true) (start line : Nat) :
    kindsOf (scan (.tag kind start) 0 line (joined apart spellings ++ ' ' :: kind.closer)) =
        .ok (spellings.map Spelling.kind ++ [kind.endToken, .eof]) ↔
      spellings.IsChain fun spelling next => apart spelling next = false →
        ¬ kind.ClosedBy spelling.kind next.kind := by
  induction spellings generalizing line with
  | nil =>
      refine iff_of_true ?_ .nil
      rw [joined, List.nil_append, scan_space, scan_final_closer hkind]
      rfl
  | cons spelling rest ih =>
      cases rest with
      | nil =>
          refine iff_of_true ?_ (.singleton _)
          rw [joined, scan_eq hkind (.inr (delimits_space _)) (by simp), scan_space,
            scan_final_closer hkind]
          rfl
      | cons next rest =>
          obtain ⟨hpair, hchain⟩ := List.isChain_cons_cons.mp halone
          rw [List.isChain_cons_cons, List.map_cons, List.cons_append]
          by_cases hopen : apart spelling next = false → ¬ kind.ClosedBy spelling.kind next.kind
          · rw [scan_joined hkind hpair hopen, kindsOf_cons_eq_ok_iff, ih hchain]
            exact ⟨fun hrest => ⟨hopen, hrest.2⟩, fun hboth => ⟨rfl, hboth.2⟩⟩
          · obtain ⟨hapart, hclosed⟩ := Classical.not_imp.mp hopen
            refine iff_of_false ?_ fun hboth => hopen hboth.1
            exact kindsOf_scan_of_closedBy hapart (not_not.mp hclosed) rest _ start line _

/-! ## Tags with and without spaces -/

/-- Two tokens are kept apart everywhere but next to a mark. -/
def Spelling.apart (spelling next : Spelling) : Bool :=
  !spelling.kind.standsAlone && !next.kind.standsAlone

namespace TagKind

/-- A tag around tokens in a row, with a space inside of either delimiter. -/
def enclose (kind : TagKind) (inside : List Char) : String :=
  String.ofList ('{' :: kind.mark :: ' ' :: (inside ++ ' ' :: kind.closer))

/-- The tag with a single space between every two tokens. -/
def spaced (kind : TagKind) (spellings : List Spelling) : String :=
  kind.enclose (Spelling.joined (fun _ _ => true) spellings)

/-- The tag without the spaces next to marks. -/
def compact (kind : TagKind) (spellings : List Spelling) : String :=
  kind.enclose (Spelling.joined Spelling.apart spellings)

/-- The tokens of a tag between its delimiters, and the end of the source behind it. -/
def enclosedKinds (kind : TagKind) (kinds : List TokenKind) : List TokenKind :=
  kind.startToken :: (kinds ++ [kind.endToken, .eof])

theorem tokenize_enclose {kind : TagKind} (hkind : kind ≠ .comment) (inside : List Char) :
    tokenize (kind.enclose inside) =
      (scan (.tag kind 1) 0 1 (inside ++ ' ' :: kind.closer)).map (⟨kind.startToken, 1⟩ :: ·) := by
  rw [tokenize, enclose, String.toList_ofList]
  cases kind with
  | comment => exact absurd rfl hkind
  | print => rfl
  | block => rfl

theorem kindsOf_enclose_joined_iff {kind : TagKind} (hkind : kind ≠ .comment)
    {apart : Spelling → Spelling → Bool}
    (halone : ∀ spelling next : Spelling, apart spelling next = false →
      spelling.kind.standsAlone = true ∨ next.kind.standsAlone = true) (spellings : List Spelling) :
    kindsOf (tokenize (kind.enclose (Spelling.joined apart spellings))) =
        .ok (kind.enclosedKinds (spellings.map Spelling.kind)) ↔
      spellings.IsChain fun spelling next => apart spelling next = false →
        ¬ kind.ClosedBy spelling.kind next.kind := by
  rw [tokenize_enclose hkind, enclosedKinds, kindsOf_cons_eq_ok_iff, eq_self, true_and,
    Spelling.kindsOf_scan_joined_iff hkind (List.pairwise_of_forall halone).isChain]

theorem kindsOf_spaced {kind : TagKind} (hkind : kind ≠ .comment) (spellings : List Spelling) :
    kindsOf (tokenize (kind.spaced spellings)) =
      .ok (kind.enclosedKinds (spellings.map Spelling.kind)) := by
  rw [spaced, kindsOf_enclose_joined_iff hkind (by simp)]
  exact (List.pairwise_of_forall (by simp)).isChain

theorem ClosedBy.apart_eq_false {kind : TagKind} {spelling next : Spelling}
    (hclosed : kind.ClosedBy spelling.kind next.kind) : spelling.apart next = false := by
  rw [Spelling.apart, hclosed.2.1]
  rfl

theorem isChain_not_closedBy_iff {kind : TagKind} {kinds : List TokenKind} :
    kinds.IsChain (fun first second => ¬ kind.ClosedBy first second) ↔
      (kind = .print → ¬ [.punct '}', .punct '}'] <:+: kinds) := by
  rw [List.isChain_iff_forall_rel_of_append_cons_cons]
  constructor
  · rintro hchain hprint ⟨front, back, hkinds⟩
    rw [List.append_assoc] at hkinds
    exact hchain hkinds.symm ⟨hprint, rfl, rfl⟩
  · rintro hkinds first second front back rfl ⟨hprint, rfl, rfl⟩
    exact hkinds hprint ⟨front, back, List.append_assoc _ _ _⟩

theorem kindsOf_compact_iff {kind : TagKind} (hkind : kind ≠ .comment) (spellings : List Spelling) :
    kindsOf (tokenize (kind.compact spellings)) =
        .ok (kind.enclosedKinds (spellings.map Spelling.kind)) ↔
      (kind = .print → ¬ [.punct '}', .punct '}'] <:+: spellings.map Spelling.kind) := by
  have halone : ∀ spelling next : Spelling, spelling.apart next = false →
      spelling.kind.standsAlone = true ∨ next.kind.standsAlone = true := by
    intro spelling next hapart
    rw [Spelling.apart, Bool.and_eq_false_iff, Bool.not_eq_false', Bool.not_eq_false'] at hapart
    exact hapart
  have hopen : ∀ spelling next : Spelling, (spelling.apart next = false →
      ¬ kind.ClosedBy spelling.kind next.kind) ↔ ¬ kind.ClosedBy spelling.kind next.kind :=
    fun _ _ => ⟨fun hopen hclosed => hopen hclosed.apart_eq_false hclosed, fun hopen _ => hopen⟩
  rw [compact, kindsOf_enclose_joined_iff hkind halone, ← isChain_not_closedBy_iff, List.isChain_map]
  simp only [hopen]

end TagKind

/-- The tokens of a tag are found again when they are written with a single space between every two
of them.  Without the spaces next to marks they are found again in a block tag, and in a print tag
exactly when no two closing braces stand side by side. -/
theorem kindsOf_compact_eq_spaced (spellings : List Spelling) :
    kindsOf (tokenize (TagKind.print.spaced spellings)) =
        .ok (TagKind.print.enclosedKinds (spellings.map Spelling.kind)) ∧
      (kindsOf (tokenize (TagKind.print.compact spellings)) =
          kindsOf (tokenize (TagKind.print.spaced spellings)) ↔
        ¬ [.punct '}', .punct '}'] <:+: spellings.map Spelling.kind) ∧
      kindsOf (tokenize (TagKind.block.compact spellings)) =
        kindsOf (tokenize (TagKind.block.spaced spellings)) := by
  have hprint : TagKind.print ≠ .comment := TagKind.noConfusion
  have hblock : TagKind.block ≠ .comment := TagKind.noConfusion
  refine ⟨TagKind.kindsOf_spaced hprint spellings, ?_, ?_⟩
  · rw [TagKind.kindsOf_spaced hprint, TagKind.kindsOf_compact_iff hprint, eq_self, true_imp_iff]
  · rw [TagKind.kindsOf_spaced hblock, TagKind.kindsOf_compact_iff hblock]
    exact fun hkind => TagKind.noConfusion hkind

/-- An array of a mapping in a mapping, `[\x7ba:\x7bb:1\x7d\x7d]`. -/
def nestedMapping : List Spelling :=
  [⟨.punct '[', '[', [], rfl⟩, ⟨.punct '{', '{', [], rfl⟩, ⟨.name "a", 'a', [], rfl⟩,
    ⟨.punct ':', ':', [], rfl⟩, ⟨.punct '{', '{', [], rfl⟩, ⟨.name "b", 'b', [], rfl⟩,
    ⟨.punct ':', ':', [], rfl⟩, ⟨.number (.integer 1), '1', [], by decide +kernel⟩,
    ⟨.punct '}', '}', [], rfl⟩, ⟨.punct '}', '}', [], rfl⟩, ⟨.punct ']', ']', [], rfl⟩]

theorem derives_nestedMapping :
    Grammar.Expression (nestedMapping.map fun spelling => ⟨spelling.kind, 1⟩)
      (.array [.map [(.string "a", .map [(.string "b", .constant (.number (.integer 1)))])]])
      false :=
  .primary (.array (.last (.primary (.map (.last (.pair .name (.primary (.map (.last
    (.pair .name (.primary .number)))))))))))

/-- Inside of the open bracket the two closing braces end the print tag, and the bracket is text. -/
theorem kindsOf_compact_nestedMapping :
    (∃ tokens expr bare, Grammar.Expression tokens expr bare ∧
        tokens.map Token.kind = nestedMapping.map Spelling.kind) ∧
      TagKind.print.compact nestedMapping = "\x7b\x7b [\x7ba:\x7bb:1\x7d\x7d] \x7d\x7d" ∧
      kindsOf (tokenize (TagKind.print.compact nestedMapping)) =
        .ok [.varStart, .punct '[', .punct '{', .name "a", .punct ':', .punct '{', .name "b",
          .punct ':', .number (.integer 1), .varEnd, .text "] \x7d\x7d", .eof] ∧
      kindsOf (tokenize (TagKind.print.compact nestedMapping)) ≠
        kindsOf (tokenize (TagKind.print.spaced nestedMapping)) := by
  refine ⟨⟨_, _, _, derives_nestedMapping, ?_⟩, by decide +kernel, by decide +kernel, ?_⟩
  · rfl
  · decide +kernel

end TemplateMessages.Template

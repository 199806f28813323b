import TemplateMessages.Proofs.GrammarCompleteness
import TemplateMessages.Proofs.Positions
import TemplateMessages.Proofs.WrittenTokens
import TemplateMessages.Template.Source

/-!
# Printed expressions

An expression that has a notation is printed as the tokens of one derivation:
keys that are not strings are put in parentheses, and nothing else is.  A print
tag around these tokens is read as that expression again.  Only the lines of the
filters are not kept, for a string may hold line feeds.
-/

namespace TemplateMessages.Template

open Grammar

namespace Expr

/-! ## Printing -/

/-- The token of a constant.  Arrays and objects are not written as constants. -/
def constantTokens : Value → List TokenKind
  | .null => [.name "null"]
  | .bool true => [.name "true"]
  | .bool false => [.name "false"]
  | .number value => [.number value]
  | .string value => [.str value]
  | .array _ => []
  | .object _ => []

def separated (texts : List (List TokenKind)) : List TokenKind :=
  [.punct ','].intercalate texts

/-- A string is a key as it is, and anything else is in parentheses. -/
def keyTokens (key : Expr) (tokens : List TokenKind) : List TokenKind :=
  match key.stringConstant? with
  | some text => [.str text]
  | none => .punct '(' :: (tokens ++ [.punct ')'])

def labelTokens : Option String → List TokenKind
  | some label => [.name label, .punct '=']
  | none => []

/-- Without arguments a filter has no parentheses. -/
def argumentListTokens : List (List TokenKind) → List TokenKind
  | [] => []
  | first :: rest => .punct '(' :: (separated (first :: rest) ++ [.punct ')'])

mutual

/-- The tokens that an expression is printed as.  A merge has no notation. -/
def tokens : Expr → List TokenKind
  | .constant value => constantTokens value
  | .name word => [.name word]
  | .array items => .punct '[' :: (separated (itemTokens items) ++ [.punct ']'])
  | .map entries => .punct '{' :: (separated (entryTokens entries) ++ [.punct '}'])
  | .filter subject word arguments _ =>
      tokens subject ++ .punct '|' :: .name word :: argumentListTokens (argumentTokens arguments)
  | .merge _ _ => []

def itemTokens : List Expr → List (List TokenKind)
  | [] => []
  | item :: rest => tokens item :: itemTokens rest

def entryTokens : List (Expr × Expr) → List (List TokenKind)
  | [] => []
  | (key, value) :: rest =>
      (keyTokens key (tokens key) ++ .punct ':' :: tokens value) :: entryTokens rest

def argumentTokens : List (Argument Expr) → List (List TokenKind)
  | [] => []
  | ⟨label, value⟩ :: rest => (labelTokens label ++ tokens value) :: argumentTokens rest

end

/-- Whether the expression itself, apart from its parts, has a notation. -/
def isPlain : Expr → Bool
  | .constant .null => true
  | .constant (.bool _) => true
  | .constant (.number value) => (TokenKind.number value).isPlain
  | .constant (.string _) => true
  | .constant _ => false
  | .name word => isIdentifier word && word ∉ constantWords.map Prod.fst
  | .array _ => true
  | .map _ => true
  | .filter _ word arguments _ =>
      isIdentifier word && arguments.all fun argument => argument.name.all isIdentifier
  | .merge _ _ => false

/-- Every part of the expression has a notation. -/
def Printable (expr : Expr) : Prop :=
  ∀ part ∈ expr.subterms, part.isPlain = true

instance (expr : Expr) : Decidable expr.Printable :=
  inferInstanceAs (Decidable (∀ part ∈ expr.subterms, part.isPlain = true))

theorem printable_iff {expr : Expr} :
    expr.Printable ↔ expr.isPlain = true ∧ ∀ part ∈ expr.parts, part.Printable := by
  unfold Printable
  rw [subterms_eq, List.forall_mem_cons, List.forall_mem_flatMap]

mutual

/-- The expression with every filter on line zero. -/
def withoutLines : Expr → Expr
  | .constant value => .constant value
  | .name word => .name word
  | .array items => .array (itemsWithoutLines items)
  | .map entries => .map (entriesWithoutLines entries)
  | .filter subject word arguments _ =>
      .filter (withoutLines subject) word (argumentsWithoutLines arguments) 0
  | .merge left right => .merge (withoutLines left) (withoutLines right)

def itemsWithoutLines : List Expr → List Expr
  | [] => []
  | item :: rest => withoutLines item :: itemsWithoutLines rest

def entriesWithoutLines : List (Expr × Expr) → List (Expr × Expr)
  | [] => []
  | (key, value) :: rest => (withoutLines key, withoutLines value) :: entriesWithoutLines rest

def argumentsWithoutLines : List (Argument Expr) → List (Argument Expr)
  | [] => []
  | ⟨label, value⟩ :: rest => ⟨label, withoutLines value⟩ :: argumentsWithoutLines rest

end

/-! ## Lists of parts -/

theorem itemTokens_eq (items : List Expr) : itemTokens items = items.map tokens := by
  induction items with
  | nil => rfl
  | cons item rest ih => rw [itemTokens, ih, List.map_cons]

theorem entryTokens_eq (entries : List (Expr × Expr)) :
    entryTokens entries = entries.map fun entry =>
      keyTokens entry.1 entry.1.tokens ++ .punct ':' :: entry.2.tokens := by
  induction entries with
  | nil => rfl
  | cons entry rest ih => rw [entryTokens, ih, List.map_cons]

theorem argumentTokens_eq (arguments : List (Argument Expr)) :
    argumentTokens arguments = arguments.map fun argument =>
      labelTokens argument.name ++ argument.value.tokens := by
  induction arguments with
  | nil => rfl
  | cons argument rest ih => rw [argumentTokens, ih, List.map_cons]

theorem itemsWithoutLines_eq (items : List Expr) :
    itemsWithoutLines items = items.map withoutLines := by
  induction items with
  | nil => rfl
  | cons item rest ih => rw [itemsWithoutLines, ih, List.map_cons]

theorem entriesWithoutLines_eq (entries : List (Expr × Expr)) :
    entriesWithoutLines entries =
      entries.map fun entry => (entry.1.withoutLines, entry.2.withoutLines) := by
  induction entries with
  | nil => rfl
  | cons entry rest ih => rw [entriesWithoutLines, ih, List.map_cons]

theorem argumentsWithoutLines_eq (arguments : List (Argument Expr)) :
    argumentsWithoutLines arguments = arguments.map fun argument =>
      ⟨argument.name, argument.value.withoutLines⟩ := by
  induction arguments with
  | nil => rfl
  | cons argument rest ih => rw [argumentsWithoutLines, ih, List.map_cons]

/-! ## Printed expressions are derived -/

section Splitting

variable {tokens : List Token} {kind closing : TokenKind} {kinds first second : List TokenKind}

theorem exists_of_map_kind_cons (htokens : tokens.map Token.kind = kind :: kinds) :
    ∃ line rest, tokens = ⟨kind, line⟩ :: rest ∧ rest.map Token.kind = kinds := by
  obtain ⟨token, rest, rfl, rfl, hrest⟩ := List.map_eq_cons_iff.mp htokens
  exact ⟨token.line, rest, rfl, hrest⟩

theorem exists_of_map_kind_singleton (htokens : tokens.map Token.kind = [kind]) :
    ∃ line, tokens = [⟨kind, line⟩] := by
  obtain ⟨line, rest, rfl, hrest⟩ := exists_of_map_kind_cons htokens
  exact ⟨line, by rw [List.map_eq_nil_iff.mp hrest]⟩

/-- Tokens on the two sides of a mark. -/
theorem exists_of_map_kind_mark (htokens : tokens.map Token.kind = first ++ kind :: second) :
    ∃ front line rest, tokens = front ++ ⟨kind, line⟩ :: rest ∧ front.map Token.kind = first ∧
      rest.map Token.kind = second := by
  obtain ⟨front, behind, rfl, hfront, hbehind⟩ := List.map_eq_append_iff.mp htokens
  obtain ⟨line, rest, rfl, hrest⟩ := exists_of_map_kind_cons hbehind
  exact ⟨front, line, rest, rfl, hfront, hrest⟩

/-- Tokens between two marks. -/
theorem exists_of_map_kind_enclosed (htokens : tokens.map Token.kind = kind :: (kinds ++ [closing])) :
    ∃ opened list closed, tokens = ⟨kind, opened⟩ :: (list ++ [⟨closing, closed⟩]) ∧
      list.map Token.kind = kinds := by
  obtain ⟨opened, behind, rfl, hbehind⟩ := exists_of_map_kind_cons htokens
  obtain ⟨list, closed, rest, rfl, hlist, hrest⟩ := exists_of_map_kind_mark hbehind
  exact ⟨opened, list, closed, by rw [List.map_eq_nil_iff.mp hrest], hlist⟩

end Splitting

/-- Tokens of the kinds that the expression is printed as derive it, with lines of their own. -/
def Derives (expr : Expr) : Prop :=
  ∀ tokens : List Token, tokens.map Token.kind = expr.tokens →
    ∃ relined bare, relined.withoutLines = expr.withoutLines ∧ Expression tokens relined bare

/-- What is printed with commas in it is derived when what stands between the commas is. -/
theorem exists_separated {α β : Type} {texts : α → List TokenKind} {same : α → β}
    (Item : List Token → α → Prop) (Items : List Token → List α → Prop)
    (hlast : ∀ {tokens item}, Item tokens item → Items tokens [item])
    (hcons : ∀ {tokens rest item items comma}, Item tokens item → Items rest items →
      Items (tokens ++ ⟨.punct ',', comma⟩ :: rest) (item :: items))
    {first : α} {items : List α} {tokens : List Token}
    (hitems : ∀ item ∈ first :: items, ∀ tokens : List Token, tokens.map Token.kind = texts item →
      ∃ relined, same relined = same item ∧ Item tokens relined)
    (htokens : tokens.map Token.kind = separated ((first :: items).map texts)) :
    ∃ relined, relined.map same = (first :: items).map same ∧ Items tokens relined := by
  obtain ⟨hfirst, hrest⟩ := List.forall_mem_cons.mp hitems
  induction items generalizing first tokens with
  | nil =>
      rw [List.map_singleton, separated, List.intercalate_singleton] at htokens
      obtain ⟨relined, hsame, hitem⟩ := hfirst tokens htokens
      exact ⟨[relined], congrArg (fun item => [item]) hsame, hlast hitem⟩
  | cons next items ih =>
      rw [List.map_cons, List.map_cons, separated, List.intercalate_cons_cons, List.append_assoc,
        List.singleton_append] at htokens
      obtain ⟨front, comma, behind, rfl, hfront, hbehind⟩ := exists_of_map_kind_mark htokens
      obtain ⟨relined, hsame, hitem⟩ := hfirst front hfront
      obtain ⟨others, hothers, hderived⟩ :=
        ih hrest hbehind (hrest next List.mem_cons_self) (List.forall_mem_cons.mp hrest).2
      exact ⟨relined :: others, congrArg₂ List.cons hsame hothers, hcons hitem hderived⟩

theorem derives_constant {value : Value} (hplain : (constant value).isPlain = true) :
    (constant value).Derives := by
  intro tokens htokens
  suffices hderived : Primary tokens (.constant value) from ⟨_, false, rfl, .primary hderived⟩
  cases value with
  | null =>
      obtain ⟨line, rfl⟩ := exists_of_map_kind_singleton htokens
      exact .constant (by simp [constantWords])
  | bool value =>
      cases value with
      | false =>
          obtain ⟨line, rfl⟩ := exists_of_map_kind_singleton htokens
          exact .constant (by simp [constantWords])
      | true =>
          obtain ⟨line, rfl⟩ := exists_of_map_kind_singleton htokens
          exact .constant (by simp [constantWords])
  | number value =>
      obtain ⟨line, rfl⟩ := exists_of_map_kind_singleton htokens
      exact .number
  | string value =>
      obtain ⟨line, rfl⟩ := exists_of_map_kind_singleton htokens
      exact .string
  | array items => cases hplain
  | object members => cases hplain

theorem derives_name {word : String} (hplain : (name word).isPlain = true) : (name word).Derives := by
  intro tokens htokens
  obtain ⟨line, rfl⟩ := exists_of_map_kind_singleton htokens
  rw [isPlain, Bool.and_eq_true, decide_eq_true_eq] at hplain
  exact ⟨_, false, rfl, .primary (.name hplain.2)⟩

theorem derives_array {items : List Expr} (hitems : ∀ item ∈ items, item.Derives) :
    (array items).Derives := by
  intro tokens htokens
  obtain ⟨opened, list, closed, rfl, hlist⟩ := exists_of_map_kind_enclosed htokens
  suffices hderived : ∃ relined, itemsWithoutLines relined = itemsWithoutLines items ∧
      Items list relined by
    obtain ⟨relined, hsame, hderived⟩ := hderived
    exact ⟨.array relined, false, congrArg array hsame, .primary (.array hderived)⟩
  cases items with
  | nil =>
      obtain rfl : list = [] := List.map_eq_nil_iff.mp hlist
      exact ⟨[], rfl, .nil⟩
  | cons first rest =>
      rw [itemTokens_eq] at hlist
      simp only [itemsWithoutLines_eq]
      refine exists_separated (fun tokens item => ∃ bare, Expression tokens item bare) Items
        (fun ⟨_, hitem⟩ => .last hitem) (fun ⟨_, hitem⟩ hrest => .cons hitem hrest) ?_ hlist
      intro item hmem tokens htokens
      obtain ⟨relined, bare, hsame, hexpr⟩ := hitems item hmem tokens htokens
      exact ⟨relined, hsame, bare, hexpr⟩

/-- A key that is not a string is derived in its parentheses. -/
theorem exists_key {key : Expr} (hkey : key.Derives) {tokens : List Token}
    (htokens : tokens.map Token.kind = keyTokens key key.tokens) :
    ∃ relined, relined.withoutLines = key.withoutLines ∧ Key tokens relined := by
  unfold keyTokens at htokens
  split at htokens
  case h_1 text htext =>
    obtain ⟨line, rfl⟩ := exists_of_map_kind_singleton htokens
    exact ⟨.string text, by rw [eq_string_of_stringConstant? htext], .string⟩
  case h_2 =>
    obtain ⟨opened, list, closed, rfl, hlist⟩ := exists_of_map_kind_enclosed htokens
    obtain ⟨relined, bare, hsame, hexpr⟩ := hkey list hlist
    exact ⟨relined, hsame, .group hexpr⟩

theorem derives_map {entries : List (Expr × Expr)}
    (hentries : ∀ entry ∈ entries, entry.1.Derives ∧ entry.2.Derives) : (map entries).Derives := by
  intro tokens htokens
  obtain ⟨opened, list, closed, rfl, hlist⟩ := exists_of_map_kind_enclosed htokens
  suffices hderived : ∃ relined, entriesWithoutLines relined = entriesWithoutLines entries ∧
      Entries list relined by
    obtain ⟨relined, hsame, hderived⟩ := hderived
    exact ⟨.map relined, false, congrArg map hsame, .primary (.map hderived)⟩
  cases entries with
  | nil =>
      obtain rfl : list = [] := List.map_eq_nil_iff.mp hlist
      exact ⟨[], rfl, .nil⟩
  | cons first rest =>
      rw [entryTokens_eq] at hlist
      simp only [entriesWithoutLines_eq]
      refine exists_separated Entry Entries .last .cons ?_ hlist
      rintro ⟨key, value⟩ hmem tokens htokens
      obtain ⟨hkey, hvalue⟩ := hentries (key, value) hmem
      obtain ⟨front, colon, behind, rfl, hfront, hbehind⟩ := exists_of_map_kind_mark htokens
      obtain ⟨relinedKey, hsameKey, hkeyDerived⟩ := exists_key hkey hfront
      obtain ⟨relined, bare, hsame, hexpr⟩ := hvalue behind hbehind
      exact ⟨(relinedKey, relined), Prod.ext hsameKey hsame, .pair hkeyDerived hexpr⟩

theorem exists_argument {argument : Argument Expr} (hvalue : argument.value.Derives)
    {tokens : List Token}
    (htokens : tokens.map Token.kind = labelTokens argument.name ++ argument.value.tokens) :
    ∃ relined : Argument Expr, (⟨relined.name, relined.value.withoutLines⟩ : Argument Expr) =
        ⟨argument.name, argument.value.withoutLines⟩ ∧ OneArgument tokens relined := by
  obtain ⟨label, value⟩ := argument
  cases label with
  | none =>
      obtain ⟨relined, bare, hsame, hexpr⟩ := hvalue tokens htokens
      exact ⟨.positional relined, congrArg (Argument.mk none) hsame, .positional hexpr⟩
  | some label =>
      obtain ⟨labelLine, behind, rfl, hbehind⟩ := exists_of_map_kind_cons htokens
      obtain ⟨line, rest, rfl, hrest⟩ := exists_of_map_kind_cons hbehind
      obtain ⟨relined, bare, hsame, hexpr⟩ := hvalue rest hrest
      exact ⟨.named label relined, congrArg (Argument.mk (some label)) hsame, .named (.inl rfl) hexpr⟩

theorem derives_filter {subject : Expr} {word : String} {arguments : List (Argument Expr)}
    {line : Nat} (hsubject : subject.Derives)
    (harguments : ∀ argument ∈ arguments, argument.value.Derives) :
    (filter subject word arguments line).Derives := by
  intro tokens htokens
  obtain ⟨front, bar, behind, rfl, hfront, hbehind⟩ := exists_of_map_kind_mark htokens
  obtain ⟨wordLine, rest, rfl, hrest⟩ := exists_of_map_kind_cons hbehind
  obtain ⟨relined, bare, hsame, hexpr⟩ := hsubject front hfront
  cases arguments with
  | nil =>
      obtain rfl : rest = [] := List.map_eq_nil_iff.mp hrest
      exact ⟨.filter relined word [] bar, true, by simp only [withoutLines, hsame], .filter hexpr⟩
  | cons first others =>
      obtain ⟨opened, list, closed, rfl, hlist⟩ := exists_of_map_kind_enclosed hrest
      suffices hderived : ∃ arguments,
          argumentsWithoutLines arguments = argumentsWithoutLines (first :: others) ∧
            ArgumentList list arguments by
        obtain ⟨arguments, hsameArguments, hderived⟩ := hderived
        exact ⟨.filter relined word arguments bar, false,
          by simp only [withoutLines, hsame, hsameArguments], .call hexpr (.list hderived)⟩
      rw [← argumentTokens, argumentTokens_eq] at hlist
      simp only [argumentsWithoutLines_eq]
      refine exists_separated OneArgument ArgumentList .last .cons ?_ hlist
      intro argument hmem tokens htokens
      exact exists_argument (harguments argument hmem) htokens

theorem derives_of_printable {expr : Expr} (hprintable : expr.Printable) : expr.Derives := by
  induction expr using induction_on_parts with
  | hstep expr ih =>
  obtain ⟨hplain, hparts⟩ := printable_iff.mp hprintable
  have hderives : ∀ part ∈ expr.parts, part.Derives :=
    fun part hpart => ih part hpart (hparts part hpart)
  cases expr with
  | constant value => exact derives_constant hplain
  | name word => exact derives_name hplain
  | array items => exact derives_array hderives
  | map entries =>
      apply derives_map
      intro entry hentry
      exact ⟨hderives _ (List.mem_flatMap.mpr ⟨entry, hentry, by simp⟩),
        hderives _ (List.mem_flatMap.mpr ⟨entry, hentry, by simp⟩)⟩
  | filter subject word arguments line =>
      obtain ⟨hsubject, harguments⟩ := List.forall_mem_cons.mp hderives
      exact derives_filter hsubject fun argument hargument =>
        harguments _ (List.mem_map_of_mem hargument)
  | merge left right => cases hplain

/-! ## Printed tokens are plain -/

/-- Every token that the expression is printed as is plain. -/
def PlainTokens (expr : Expr) : Prop :=
  ∀ kind ∈ expr.tokens, kind.isPlain = true

theorem isPlain_separated {texts : List (List TokenKind)}
    (htexts : ∀ text ∈ texts, ∀ kind ∈ text, kind.isPlain = true) :
    ∀ kind ∈ separated texts, kind.isPlain = true := by
  intro kind hkind
  rcases mem_or_of_mem_intercalate hkind with hcomma | ⟨text, htext, hmem⟩
  · obtain rfl := List.mem_singleton.mp hcomma
    rfl
  · exact htexts text htext kind hmem

theorem isPlain_enclosed {opening closing : Char} {kinds : List TokenKind}
    (hopening : isPunctuation opening = true) (hclosing : isPunctuation closing = true)
    (hkinds : ∀ kind ∈ kinds, kind.isPlain = true) :
    ∀ kind ∈ .punct opening :: (kinds ++ [.punct closing]), kind.isPlain = true := by
  rw [List.forall_mem_cons, List.forall_mem_append, List.forall_mem_singleton]
  exact ⟨hopening, hkinds, hclosing⟩

theorem isPlain_constantTokens {value : Value} (hplain : (constant value).isPlain = true) :
    ∀ kind ∈ constantTokens value, kind.isPlain = true := by
  cases value with
  | null => decide
  | bool value => cases value <;> decide
  | number value => exact List.forall_mem_singleton.mpr hplain
  | string value => exact List.forall_mem_singleton.mpr rfl
  | array items => cases hplain
  | object members => cases hplain

theorem isPlain_keyTokens {key : Expr} (hkey : key.PlainTokens) :
    ∀ kind ∈ keyTokens key key.tokens, kind.isPlain = true := by
  unfold keyTokens
  split
  case h_1 => exact List.forall_mem_singleton.mpr rfl
  case h_2 => exact isPlain_enclosed rfl rfl hkey

theorem isPlain_labelTokens {label : Option String} (hlabel : label.all isIdentifier = true) :
    ∀ kind ∈ labelTokens label, kind.isPlain = true := by
  cases label with
  | none => exact nofun
  | some label =>
      rw [labelTokens, List.forall_mem_cons, List.forall_mem_singleton]
      exact ⟨hlabel, rfl⟩

theorem isPlain_argumentListTokens {texts : List (List TokenKind)}
    (htexts : ∀ text ∈ texts, ∀ kind ∈ text, kind.isPlain = true) :
    ∀ kind ∈ argumentListTokens texts, kind.isPlain = true := by
  cases texts with
  | nil => exact nofun
  | cons first rest => exact isPlain_enclosed rfl rfl (isPlain_separated htexts)

theorem plainTokens_of_printable {expr : Expr} (hprintable : expr.Printable) : expr.PlainTokens := by
  induction expr using induction_on_parts with
  | hstep expr ih =>
  obtain ⟨hplain, hparts⟩ := printable_iff.mp hprintable
  have hinner : ∀ part ∈ expr.parts, part.PlainTokens :=
    fun part hpart => ih part hpart (hparts part hpart)
  unfold PlainTokens
  cases expr with
  | constant value => exact isPlain_constantTokens hplain
  | name word =>
      rw [isPlain, Bool.and_eq_true] at hplain
      exact List.forall_mem_singleton.mpr hplain.1
  | array items =>
      rw [tokens, itemTokens_eq]
      apply isPlain_enclosed rfl rfl
      apply isPlain_separated
      rw [List.forall_mem_map]
      exact hinner
  | map entries =>
      rw [tokens, entryTokens_eq]
      apply isPlain_enclosed rfl rfl
      apply isPlain_separated
      rw [List.forall_mem_map]
      intro entry hentry
      rw [List.forall_mem_append, List.forall_mem_cons]
      exact ⟨isPlain_keyTokens (hinner _ (List.mem_flatMap.mpr ⟨entry, hentry, by simp⟩)), rfl,
        hinner _ (List.mem_flatMap.mpr ⟨entry, hentry, by simp⟩)⟩
  | filter subject word arguments line =>
      rw [isPlain, Bool.and_eq_true, List.all_eq_true] at hplain
      obtain ⟨hsubject, harguments⟩ := List.forall_mem_cons.mp hinner
      rw [tokens, argumentTokens_eq, List.forall_mem_append, List.forall_mem_cons,
        List.forall_mem_cons]
      refine ⟨hsubject, rfl, hplain.1, isPlain_argumentListTokens ?_⟩
      rw [List.forall_mem_map]
      intro argument hargument
      rw [List.forall_mem_append]
      exact ⟨isPlain_labelTokens (hplain.2 argument hargument),
        harguments _ (List.mem_map_of_mem hargument)⟩
  | merge left right => cases hplain

end Expr

/-! ## Reading a printed expression -/

/-- A print tag alone is read as one node. -/
theorem parseNodes_print {tags : List BlockTag} {tokens : List Token} {expr : Expr} {bare : Bool}
    {line endLine finalLine : Nat} (hexpr : Expression tokens expr bare) :
    parseNodes tags
        (.ofTokens (⟨.varStart, line⟩ :: (tokens ++ [⟨.varEnd, endLine⟩, ⟨.eof, finalLine⟩]))) =
      .ok (.print expr line) := by
  let behind : TokenStream := ⟨[⟨.varEnd, endLine⟩], finalLine⟩
  have hstream : TokenStream.ofTokens
      (⟨.varStart, line⟩ :: (tokens ++ [⟨.varEnd, endLine⟩, ⟨.eof, finalLine⟩])) =
        behind.prepend (⟨.varStart, line⟩ :: tokens) := by
    have hconcat := TokenStream.ofTokens_concat_eof
      (⟨.varStart, line⟩ :: (tokens ++ [⟨.varEnd, endLine⟩])) finalLine
    rwa [List.cons_append, List.append_assoc] at hconcat
  have hread : parseExpression (behind.prepend tokens) = .ok (expr, behind) := by
    apply parseExpression_eq_ok_iff.mpr
    exact ⟨tokens, bare, rfl, hexpr, nofun, nofun⟩
  obtain ⟨bound, hbound⟩ : ∃ bound,
      (behind.prepend (⟨.varStart, line⟩ :: tokens)).depthBound = bound + 2 := ⟨_, rfl⟩
  have hprint : Node.readNodes tags false (bound + 2) (behind.prepend (⟨.varStart, line⟩ :: tokens)) =
      .ok ([.print expr line], ⟨[], finalLine⟩) := by
    rw [Node.readNodes]
    dsimp only [TokenStream.current_prepend_cons, TokenStream.advance_prepend_cons]
    rw [hread]
    rfl
  rw [hstream, parseNodes, hbound, hprint]
  rfl

/-- What an expression is printed as is read as one print node that holds the expression, with
other lines for its filters at most. -/
theorem read_printTag {expr : Expr} (hprintable : expr.Printable) (quotes : Nat → Quote)
    (name : Option String) (tags : List BlockTag) :
    ∃ reread, Source.read ⟨printTag quotes expr.tokens, name⟩ tags = .ok (.print reread 1) ∧
      reread.withoutLines = expr.withoutLines := by
  obtain ⟨tokens, endLine, htokenize, htokens⟩ :=
    tokenize_printTag (Expr.plainTokens_of_printable hprintable) quotes
  obtain ⟨reread, bare, hsame, hexpr⟩ := Expr.derives_of_printable hprintable tokens htokens
  refine ⟨reread, ?_, hsame⟩
  unfold Source.read
  rw [htokenize]
  dsimp only
  rw [parseNodes_print hexpr]
  rfl

/-- Delimiters, a quote, a backslash and a line feed in strings, the least integer, keys of both
kinds, arguments of both kinds and filters with and without arguments. -/
def greetingExpr : Expr :=
  .filter
    (.filter (.string "\x7b\x7b it's \x7d\x7d \\\n%\x7d") "trans"
      [.positional (.map [(.string "%name%", .name "user"),
          (.array [.null, .constant (.bool true)],
            .constant (.number (.integer (-0x8000000000000000))))]),
        .named "domain" (.string "\"")] 3)
    "upper" [] 7

/-- The strings are in single quotes here. -/
theorem read_printTag_greetingExpr :
    greetingExpr.Printable ∧
      printTag (fun _ => .single) greetingExpr.tokens =
        "\x7b\x7b '\x7b\x7b it\\'s \x7d\x7d \\\\\n%\x7d' | trans ( \x7b '%name%' : user , " ++
          "( [ null , true ] ) : -9223372036854775808 \x7d , domain = '\"' ) | upper \x7d\x7d" ∧
      ∃ reread,
        Source.read ⟨printTag (fun _ => .single) greetingExpr.tokens, none⟩ allTags =
          .ok (.print reread 1) ∧
        reread.withoutLines = greetingExpr.withoutLines := by
  have hprintable : greetingExpr.Printable := by decide
  exact ⟨hprintable, by decide +kernel, read_printTag hprintable (fun _ => .single) none allTags⟩

end TemplateMessages.Template

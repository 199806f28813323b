import TemplateMessages.Proofs.MatchingTokens
import TemplateMessages.Proofs.PrintedExpressions

/-!
# Expressions of tokens that match

No expression holds a text, so the expressions that are read of matching tokens are
the same but for the lines that they carry, and they are refused the same.
-/

namespace TemplateMessages.Template

section Read

variable {ε α β : Type} {reasons : ε → ε → Prop} {texts : String → String → Prop}

/-- What is read matches, and so does what is left to be read. -/
abbrev MatchesRead (reasons : ε → ε → Prop) (texts : String → String → Prop) (values : α → β → Prop) :
    Except ε (α × TokenStream) → Except ε (β × TokenStream) → Prop :=
  Matches reasons fun read read' => values read.1 read'.1 ∧ read.2.Like texts read'.2

theorem MatchesRead.bind {γ δ : Type} {values : α → β → Prop} {next : γ → δ → Prop}
    {result : Except ε (α × TokenStream)} {result' : Except ε (β × TokenStream)}
    (hresult : MatchesRead reasons texts values result result')
    {step : α × TokenStream → Except ε γ} {step' : β × TokenStream → Except ε δ}
    (hstep : ∀ (value : α) (value' : β) {rest rest' : TokenStream}, values value value' →
      rest.Like texts rest' → Matches reasons next (step (value, rest)) (step' (value', rest'))) :
    Matches reasons next (result >>= step) (result' >>= step') :=
  Matches.bind hresult fun _ _ hread => hstep _ _ hread.1 hread.2

end Read

variable {texts : String → String → Prop}

namespace Expr

/-- The same expression, with lines of its own. -/
def Relined (expr expr' : Expr) : Prop :=
  expr.withoutLines = expr'.withoutLines

abbrev SameItems (items items' : List Expr) : Prop :=
  itemsWithoutLines items = itemsWithoutLines items'

abbrev SameEntries (entries entries' : List (Expr × Expr)) : Prop :=
  entriesWithoutLines entries = entriesWithoutLines entries'

abbrev SameArguments (arguments arguments' : List (Argument Expr)) : Prop :=
  argumentsWithoutLines arguments = argumentsWithoutLines arguments'

theorem Relined.refl (expr : Expr) : expr.Relined expr :=
  rfl

theorem relined_array {items items' : List Expr} (hitems : SameItems items items') :
    (array items).Relined (array items') :=
  congrArg array hitems

theorem relined_map {entries entries' : List (Expr × Expr)}
    (hentries : SameEntries entries entries') : (map entries).Relined (map entries') :=
  congrArg map hentries

theorem relined_filter {subject subject' : Expr} {word : String}
    {arguments arguments' : List (Argument Expr)} (line line' : Nat)
    (hsubject : subject.Relined subject') (harguments : SameArguments arguments arguments') :
    (filter subject word arguments line).Relined (filter subject' word arguments' line') := by
  rw [Relined, withoutLines, withoutLines, harguments, show _ = _ from hsubject]

theorem sameItems_cons {item item' : Expr} {items items' : List Expr} (hitem : item.Relined item')
    (hitems : SameItems items items') : SameItems (item :: items) (item' :: items') :=
  congrArg₂ List.cons hitem hitems

theorem sameEntries_cons {key key' value value' : Expr} {entries entries' : List (Expr × Expr)}
    (hkey : key.Relined key') (hvalue : value.Relined value') (hentries : SameEntries entries entries') :
    SameEntries ((key, value) :: entries) ((key', value') :: entries') :=
  congrArg₂ List.cons (congrArg₂ Prod.mk hkey hvalue) hentries

theorem sameArguments_cons (label : Option String) {value value' : Expr}
    {arguments arguments' : List (Argument Expr)} (hvalue : value.Relined value')
    (harguments : SameArguments arguments arguments') :
    SameArguments (⟨label, value⟩ :: arguments) (⟨label, value'⟩ :: arguments') :=
  congrArg₂ List.cons (congrArg (Argument.mk label) hvalue) harguments

/-- The readers of expressions read the same of matching tokens, with a bound on their recursion. -/
structure ReadersMatch (texts : String → String → Prop) (bound : Nat) : Prop where
  expression : ∀ {stream stream' : TokenStream}, stream.Like texts stream' →
    MatchesRead SyntaxError.Agrees texts Relined (readExpression bound stream)
      (readExpression bound stream')
  filters : ∀ {stream stream' : TokenStream} {subject subject' : Expr}, stream.Like texts stream' →
    subject.Relined subject' →
      MatchesRead SyntaxError.Agrees texts Relined (readFilters bound subject stream)
        (readFilters bound subject' stream')
  primary : ∀ {stream stream' : TokenStream}, stream.Like texts stream' →
    MatchesRead SyntaxError.Agrees texts Relined (readPrimary bound stream) (readPrimary bound stream')
  items : ∀ {stream stream' : TokenStream}, stream.Like texts stream' →
    MatchesRead SyntaxError.Agrees texts SameItems (readItems bound stream) (readItems bound stream')
  entries : ∀ {stream stream' : TokenStream}, stream.Like texts stream' →
    MatchesRead SyntaxError.Agrees texts SameEntries (readEntries bound stream)
      (readEntries bound stream')
  key : ∀ {stream stream' : TokenStream}, stream.Like texts stream' →
    MatchesRead SyntaxError.Agrees texts Relined (readKey bound stream) (readKey bound stream')
  arguments : ∀ {stream stream' : TokenStream}, stream.Like texts stream' →
    MatchesRead SyntaxError.Agrees texts SameArguments (readArguments bound stream)
      (readArguments bound stream')
  argumentList : ∀ {stream stream' : TokenStream}, stream.Like texts stream' →
    MatchesRead SyntaxError.Agrees texts SameArguments (readArgumentList bound stream)
      (readArgumentList bound stream')

variable {bound : Nat}

/-- Readers that are given no depth refuse the tokens at which they stand. -/
theorem ReadersMatch.zero : ReadersMatch texts 0 where
  expression := fun hstream => .error hstream.unexpected
  filters := fun hstream _ => .error hstream.unexpected
  primary := fun hstream => .error hstream.unexpected
  items := fun hstream => .error hstream.unexpected
  entries := fun hstream => .error hstream.unexpected
  key := fun hstream => .error hstream.unexpected
  arguments := fun hstream => .error hstream.unexpected
  argumentList := fun hstream => .error hstream.unexpected

namespace ReadersMatch

variable {stream stream' : TokenStream}

theorem expression_succ (hmatch : ReadersMatch texts bound) (hstream : stream.Like texts stream') :
    MatchesRead SyntaxError.Agrees texts Relined (readExpression (bound + 1) stream)
      (readExpression (bound + 1) stream') := by
  rw [readExpression, readExpression]
  refine MatchesRead.bind (hmatch.primary hstream) fun subject subject' _ _ hsubject hrest => ?_
  exact hmatch.filters hrest hsubject

theorem filters_succ (hmatch : ReadersMatch texts bound) {subject subject' : Expr}
    (hstream : stream.Like texts stream') (hsubject : subject.Relined subject') :
    MatchesRead SyntaxError.Agrees texts Relined (readFilters (bound + 1) subject stream)
      (readFilters (bound + 1) subject' stream') := by
  rw [readFilters, readFilters, hstream.current.isPunct_eq]
  split
  case isFalse => exact .ok ⟨hsubject, hstream⟩
  case isTrue =>
    refine MatchesRead.bind hstream.advance.expectName fun word word' after after' hword hafter => ?_
    obtain rfl : word = word' := hword
    have hfilters : ∀ (arguments arguments' : List (Argument Expr)) {rest rest' : TokenStream},
        SameArguments arguments arguments' → rest.Like texts rest' →
          MatchesRead SyntaxError.Agrees texts Relined
            (readFilters bound (.filter subject word arguments stream.current.line) rest)
            (readFilters bound (.filter subject' word arguments' stream'.current.line) rest') :=
      fun _ _ _ _ harguments hrest =>
        hmatch.filters hrest (relined_filter _ _ hsubject harguments)
    dsimp only
    rw [hafter.current.isPunct_eq]
    split
    case isTrue => exact MatchesRead.bind (hmatch.arguments hafter.advance) hfilters
    case isFalse => exact hfilters [] [] rfl hafter

theorem primary_succ (hmatch : ReadersMatch texts bound) (hstream : stream.Like texts stream') :
    MatchesRead SyntaxError.Agrees texts Relined (readPrimary (bound + 1) stream)
      (readPrimary (bound + 1) stream') := by
  have hunexpected := hstream.unexpected
  have hcurrent : TokenKind.Like texts stream.current.kind stream'.current.kind := hstream.current
  rw [readPrimary, readPrimary]
  generalize stream.current.kind = kind at hcurrent ⊢
  generalize stream'.current.kind = kind' at hcurrent ⊢
  cases hcurrent with
  | text => exact .error hunexpected
  | same =>
      split
      case h_1 => exact .ok ⟨.refl _, hstream.advance⟩
      case h_2 => exact .ok ⟨.refl _, hstream.advance⟩
      case h_3 => exact .ok ⟨.refl _, hstream.advance⟩
      case h_4 =>
        refine MatchesRead.bind (hmatch.items hstream.advance) fun _ _ _ _ hitems hrest => ?_
        exact .ok ⟨relined_array hitems, hrest⟩
      case h_5 =>
        refine MatchesRead.bind (hmatch.entries hstream.advance) fun _ _ _ _ hentries hrest => ?_
        exact .ok ⟨relined_map hentries, hrest⟩
      case h_6 =>
        refine MatchesRead.bind (hmatch.expression hstream.advance) fun _ _ _ _ hinner hafter => ?_
        refine (hafter.expectPunct ')').bind fun _ _ hrest => ?_
        exact .ok ⟨hinner, hrest⟩
      case h_7 => exact .error hunexpected

theorem items_succ (hmatch : ReadersMatch texts bound) (hstream : stream.Like texts stream') :
    MatchesRead SyntaxError.Agrees texts SameItems (readItems (bound + 1) stream)
      (readItems (bound + 1) stream') := by
  rw [readItems, readItems, hstream.current.isPunct_eq]
  split
  case isTrue => exact .ok ⟨rfl, hstream.advance⟩
  case isFalse =>
    refine MatchesRead.bind (hmatch.expression hstream) fun _ _ _ _ hitem hafter => ?_
    dsimp only
    rw [hafter.current.isPunct_eq]
    split
    case isTrue => exact .ok ⟨sameItems_cons hitem rfl, hafter.advance⟩
    case isFalse =>
      refine (hafter.expectPunct ',').bind fun _ _ hbehind => ?_
      refine MatchesRead.bind (hmatch.items hbehind) fun _ _ _ _ hitems hrest => ?_
      exact .ok ⟨sameItems_cons hitem hitems, hrest⟩

theorem entries_succ (hmatch : ReadersMatch texts bound) (hstream : stream.Like texts stream') :
    MatchesRead SyntaxError.Agrees texts SameEntries (readEntries (bound + 1) stream)
      (readEntries (bound + 1) stream') := by
  rw [readEntries, readEntries, hstream.current.isPunct_eq]
  split
  case isTrue => exact .ok ⟨rfl, hstream.advance⟩
  case isFalse =>
    refine MatchesRead.bind (hmatch.key hstream) fun _ _ _ _ hkey hafterKey => ?_
    refine (hafterKey.expectPunct ':').bind fun _ _ hafterSign => ?_
    refine MatchesRead.bind (hmatch.expression hafterSign) fun _ _ _ _ hvalue hafter => ?_
    dsimp only
    rw [hafter.current.isPunct_eq]
    split
    case isTrue => exact .ok ⟨sameEntries_cons hkey hvalue rfl, hafter.advance⟩
    case isFalse =>
      refine (hafter.expectPunct ',').bind fun _ _ hbehind => ?_
      refine MatchesRead.bind (hmatch.entries hbehind) fun _ _ _ _ hentries hrest => ?_
      exact .ok ⟨sameEntries_cons hkey hvalue hentries, hrest⟩

theorem key_succ (hmatch : ReadersMatch texts bound) (hstream : stream.Like texts stream') :
    MatchesRead SyntaxError.Agrees texts Relined (readKey (bound + 1) stream)
      (readKey (bound + 1) stream') := by
  have hcurrent : TokenKind.Like texts stream.current.kind stream'.current.kind := hstream.current
  rw [readKey, readKey]
  generalize stream.current.kind = kind at hcurrent ⊢
  generalize stream'.current.kind = kind' at hcurrent ⊢
  have hinvalid := SyntaxError.agrees_onLine stream.current.line stream'.current.line
    hcurrent.message_invalidKey
  cases hcurrent with
  | text => exact .error hinvalid
  | same =>
      split
      case h_1 => exact .ok ⟨.refl _, hstream.advance⟩
      case h_2 => exact .ok ⟨.refl _, hstream.advance⟩
      case h_3 => exact .ok ⟨.refl _, hstream.advance⟩
      case h_4 =>
        refine MatchesRead.bind (hmatch.expression hstream.advance) fun _ _ _ _ hkey hafter => ?_
        refine (hafter.expectPunct ')').bind fun _ _ hrest => ?_
        exact .ok ⟨hkey, hrest⟩
      case h_5 => exact .error hinvalid

theorem arguments_succ (hmatch : ReadersMatch texts bound) (hstream : stream.Like texts stream') :
    MatchesRead SyntaxError.Agrees texts SameArguments (readArguments (bound + 1) stream)
      (readArguments (bound + 1) stream') := by
  rw [readArguments, readArguments, hstream.current.isPunct_eq]
  split
  case isTrue => exact .ok ⟨rfl, hstream.advance⟩
  case isFalse => exact hmatch.argumentList hstream

theorem argumentList_succ (hmatch : ReadersMatch texts bound) (hstream : stream.Like texts stream') :
    MatchesRead SyntaxError.Agrees texts SameArguments (readArgumentList (bound + 1) stream)
      (readArgumentList (bound + 1) stream') := by
  have hname : stream.current.name? = stream'.current.name? := hstream.current.name?_eq
  have hlabel : ∀ named : Bool,
      (if named then stream.advance.advance else stream).Like texts
        (if named then stream'.advance.advance else stream') := by
    intro named
    cases named with
    | true => exact hstream.advance.advance
    | false => exact hstream
  rw [readArgumentList, readArgumentList, hstream.startsNamedArgument_eq, hname]
  refine MatchesRead.bind (hmatch.expression (hlabel _)) fun _ _ _ _ hvalue hafter => ?_
  dsimp only
  rw [hafter.current.isPunct_eq]
  split
  case isTrue => exact .ok ⟨sameArguments_cons _ hvalue rfl, hafter.advance⟩
  case isFalse =>
    refine (hafter.expectPunct ',').bind fun _ _ hbehind => ?_
    refine MatchesRead.bind (hmatch.argumentList hbehind) fun _ _ _ _ harguments hrest => ?_
    exact .ok ⟨sameArguments_cons _ hvalue harguments, hrest⟩

end ReadersMatch

theorem readersMatch (texts : String → String → Prop) (bound : Nat) : ReadersMatch texts bound := by
  induction bound with
  | zero => exact .zero
  | succ bound ih =>
      exact {
        expression := ih.expression_succ
        filters := ih.filters_succ
        primary := ih.primary_succ
        items := ih.items_succ
        entries := ih.entries_succ
        key := ih.key_succ
        arguments := ih.arguments_succ
        argumentList := ih.argumentList_succ }

end Expr

theorem matches_parseExpression {stream stream' : TokenStream} (hstream : stream.Like texts stream') :
    MatchesRead SyntaxError.Agrees texts Expr.Relined (parseExpression stream)
      (parseExpression stream') := by
  rw [parseExpression, parseExpression, hstream.depthBound_eq]
  exact (Expr.readersMatch texts _).expression hstream

end TemplateMessages.Template

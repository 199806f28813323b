import Mathlib.Data.List.Basic
import TemplateMessages.Template.Expr.Parser

/-!
# The grammar of expressions

    expression = primary ('|' NAME ['(' arguments ')'])*
    primary    = NAME | NUMBER | STR | '[' items ']' | '{' entries '}' | '(' expression ')'
    items      = [expression (',' expression)* [',']]
    entries    = [entry (',' entry)* [',']]
    entry      = (STR | NAME | NUMBER | '(' expression ')') ':' expression
    arguments  = [argument (',' argument)*]
    argument   = NAME ('=' | ':') expression | expression

A derivation is a list of tokens with the tree that it stands for.  The tree keeps
no parentheses, and of the lines only those of the bars of its filters.  This
module holds the grammar, how a derivation may start, and what a token stream
with a derivation at its front looks like.
-/

namespace TemplateMessages.Template

namespace Grammar

/-- The names that are constants. -/
def constantWords : List (String × Value) :=
  [("true", .bool true), ("false", .bool false), ("null", .null), ("none", .null)]

mutual

/-- The last index tells whether the derivation ends in a filter without an argument list. -/
inductive Expression : List Token → Expr → Bool → Prop
  | primary {tokens : List Token} {expr : Expr} :
      Primary tokens expr → Expression tokens expr false
  | filter {tokens : List Token} {subject : Expr} {bare : Bool} {word : String}
      {line wordLine : Nat} :
      Expression tokens subject bare →
      Expression (tokens ++ [⟨.punct '|', line⟩, ⟨.name word, wordLine⟩])
        (.filter subject word [] line) true
  | call {tokens list : List Token} {subject : Expr} {bare : Bool} {word : String}
      {arguments : List (Argument Expr)} {line wordLine opened closed : Nat} :
      Expression tokens subject bare → Arguments list arguments →
      Expression (tokens ++ ⟨.punct '|', line⟩ :: ⟨.name word, wordLine⟩ :: ⟨.punct '(', opened⟩ ::
        (list ++ [⟨.punct ')', closed⟩])) (.filter subject word arguments line) false

inductive Primary : List Token → Expr → Prop
  | constant {word : String} {value : Value} {line : Nat} :
      (word, value) ∈ constantWords → Primary [⟨.name word, line⟩] (.constant value)
  | name {word : String} {line : Nat} :
      word ∉ constantWords.map Prod.fst → Primary [⟨.name word, line⟩] (.name word)
  | number {value : Number} {line : Nat} :
      Primary [⟨.number value, line⟩] (.constant (.number value))
  | string {value : String} {line : Nat} : Primary [⟨.str value, line⟩] (.string value)
  | array {list : List Token} {items : List Expr} {opened closed : Nat} :
      Items list items →
      Primary (⟨.punct '[', opened⟩ :: (list ++ [⟨.punct ']', closed⟩])) (.array items)
  | map {list : List Token} {entries : List (Expr × Expr)} {opened closed : Nat} :
      Entries list entries →
      Primary (⟨.punct '{', opened⟩ :: (list ++ [⟨.punct '}', closed⟩])) (.map entries)
  | group {tokens : List Token} {expr : Expr} {bare : Bool} {opened closed : Nat} :
      Expression tokens expr bare →
      Primary (⟨.punct '(', opened⟩ :: (tokens ++ [⟨.punct ')', closed⟩])) expr

inductive Items : List Token → List Expr → Prop
  | nil : Items [] []
  | last {tokens : List Token} {item : Expr} {bare : Bool} :
      Expression tokens item bare → Items tokens [item]
  | cons {tokens rest : List Token} {item : Expr} {items : List Expr} {bare : Bool} {comma : Nat} :
      Expression tokens item bare → Items rest items →
      Items (tokens ++ ⟨.punct ',', comma⟩ :: rest) (item :: items)

inductive Entries : List Token → List (Expr × Expr) → Prop
  | nil : Entries [] []
  | last {tokens : List Token} {entry : Expr × Expr} :
      Entry tokens entry → Entries tokens [entry]
  | cons {tokens rest : List Token} {entry : Expr × Expr} {entries : List (Expr × Expr)}
      {comma : Nat} :
      Entry tokens entry → Entries rest entries →
      Entries (tokens ++ ⟨.punct ',', comma⟩ :: rest) (entry :: entries)

inductive Entry : List Token → Expr × Expr → Prop
  | pair {keyTokens tokens : List Token} {key value : Expr} {bare : Bool} {colon : Nat} :
      Key keyTokens key → Expression tokens value bare →
      Entry (keyTokens ++ ⟨.punct ':', colon⟩ :: tokens) (key, value)

/-- A key that is not in parentheses stands for its text. -/
inductive Key : List Token → Expr → Prop
  | string {value : String} {line : Nat} : Key [⟨.str value, line⟩] (.string value)
  | name {word : String} {line : Nat} : Key [⟨.name word, line⟩] (.string word)
  | number {value : Number} {line : Nat} : Key [⟨.number value, line⟩] (.string value.text)
  | group {tokens : List Token} {key : Expr} {bare : Bool} {opened closed : Nat} :
      Expression tokens key bare →
      Key (⟨.punct '(', opened⟩ :: (tokens ++ [⟨.punct ')', closed⟩])) key

inductive Arguments : List Token → List (Argument Expr) → Prop
  | nil : Arguments [] []
  | list {tokens : List Token} {arguments : List (Argument Expr)} :
      ArgumentList tokens arguments → Arguments tokens arguments

inductive ArgumentList : List Token → List (Argument Expr) → Prop
  | last {tokens : List Token} {argument : Argument Expr} :
      OneArgument tokens argument → ArgumentList tokens [argument]
  | cons {tokens rest : List Token} {argument : Argument Expr}
      {arguments : List (Argument Expr)} {comma : Nat} :
      OneArgument tokens argument → ArgumentList rest arguments →
      ArgumentList (tokens ++ ⟨.punct ',', comma⟩ :: rest) (argument :: arguments)

inductive OneArgument : List Token → Argument Expr → Prop
  | positional {tokens : List Token} {value : Expr} {bare : Bool} :
      Expression tokens value bare → OneArgument tokens (.positional value)
  | named {tokens : List Token} {word : String} {value : Expr} {bare : Bool} {mark : Char}
      {wordLine line : Nat} :
      mark = '=' ∨ mark = ':' → Expression tokens value bare →
      OneArgument (⟨.name word, wordLine⟩ :: ⟨.punct mark, line⟩ :: tokens) (.named word value)

end

/-! ## How a derivation starts -/

/-- The tokens that a primary may start with. -/
inductive StartsPrimary : TokenKind → Prop
  | name (word : String) : StartsPrimary (.name word)
  | number (value : Number) : StartsPrimary (.number value)
  | str (value : String) : StartsPrimary (.str value)
  | bracket : StartsPrimary (.punct '[')
  | brace : StartsPrimary (.punct '{')
  | parenthesis : StartsPrimary (.punct '(')

theorem StartsPrimary.ne_punct {kind : TokenKind} {mark : Char} (hstart : StartsPrimary kind)
    (hmark : mark ≠ '[' ∧ mark ≠ '{' ∧ mark ≠ '(') : kind ≠ .punct mark := by
  rintro rfl
  cases hstart with
  | bracket => exact hmark.1 rfl
  | brace => exact hmark.2.1 rfl
  | parenthesis => exact hmark.2.2 rfl

/-- A derivation starts as a primary does, and if that is a name, then a bar is behind it. -/
structure Opens (first : Token) (others : List Token) : Prop where
  starts : StartsPrimary first.kind
  barred : first.name?.isSome → others = [] ∨ ∃ line more, others = ⟨.punct '|', line⟩ :: more

theorem Opens.append {first : Token} {others : List Token} (hopens : Opens first others)
    (line : Nat) (more : List Token) : Opens first (others ++ ⟨.punct '|', line⟩ :: more) where
  starts := hopens.starts
  barred := by
    intro hname
    rcases hopens.barred hname with rfl | ⟨line', more', rfl⟩
    · exact .inr ⟨line, more, rfl⟩
    · exact .inr ⟨line', _, rfl⟩

theorem Primary.exists_opens {tokens : List Token} {expr : Expr} (hprimary : Primary tokens expr) :
    ∃ first others, tokens = first :: others ∧ Opens first others := by
  cases hprimary with
  | constant => exact ⟨_, _, rfl, .name _, fun _ => .inl rfl⟩
  | name => exact ⟨_, _, rfl, .name _, fun _ => .inl rfl⟩
  | number => exact ⟨_, _, rfl, .number _, fun _ => .inl rfl⟩
  | string => exact ⟨_, _, rfl, .str _, fun _ => .inl rfl⟩
  | array => exact ⟨_, _, rfl, .bracket, nofun⟩
  | map => exact ⟨_, _, rfl, .brace, nofun⟩
  | group => exact ⟨_, _, rfl, .parenthesis, nofun⟩

theorem Expression.exists_opens {tokens : List Token} {expr : Expr} {bare : Bool} :
    Expression tokens expr bare → ∃ first others, tokens = first :: others ∧ Opens first others
  | .primary hprimary => hprimary.exists_opens
  | .filter hsubject => by
      obtain ⟨first, others, rfl, hopens⟩ := hsubject.exists_opens
      exact ⟨first, _, rfl, hopens.append _ _⟩
  | .call hsubject _ => by
      obtain ⟨first, others, rfl, hopens⟩ := hsubject.exists_opens
      exact ⟨first, _, rfl, hopens.append _ _⟩

/-- A key starts as a primary does. -/
theorem Key.exists_starts {tokens : List Token} {key : Expr} (hkey : Key tokens key) :
    ∃ first others, tokens = first :: others ∧ StartsPrimary first.kind := by
  cases hkey with
  | string => exact ⟨_, _, rfl, .str _⟩
  | name => exact ⟨_, _, rfl, .name _⟩
  | number => exact ⟨_, _, rfl, .number _⟩
  | group => exact ⟨_, _, rfl, .parenthesis⟩

theorem OneArgument.exists_starts {tokens : List Token} {argument : Argument Expr}
    (hargument : OneArgument tokens argument) :
    ∃ first others, tokens = first :: others ∧ StartsPrimary first.kind := by
  cases hargument with
  | positional hexpr =>
      obtain ⟨first, others, rfl, hopens⟩ := hexpr.exists_opens
      exact ⟨first, others, rfl, hopens.starts⟩
  | named => exact ⟨_, _, rfl, .name _⟩

theorem ArgumentList.exists_starts {tokens : List Token} {arguments : List (Argument Expr)}
    (harguments : ArgumentList tokens arguments) :
    ∃ first others, tokens = first :: others ∧ StartsPrimary first.kind := by
  cases harguments with
  | last hargument => exact hargument.exists_starts
  | cons hargument =>
      obtain ⟨first, others, rfl, hstarts⟩ := hargument.exists_starts
      exact ⟨first, _, rfl, hstarts⟩

end Grammar

end TemplateMessages.Template

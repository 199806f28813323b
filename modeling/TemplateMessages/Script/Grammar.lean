import TemplateMessages.Script.Reader

/-!
# Grammars

The constructs of a script contain each other.  A `Grammar` holds the readers of
those that stand inside others, and every reader of a construct takes the
grammar of its insides.  The whole grammar is built level by level: on every
level each construct may contain those of the level below.
-/

namespace TemplateMessages.Script

/-- Where an expression stands. -/
structure Place where
  /-- Whether `in` is an operator; it is none in the head of a loop. -/
  allowsIn : Bool
  /-- Whether the expression is the middle one of a conditional, where a colon
  behind parentheses is no return type. -/
  inMiddle : Bool
deriving DecidableEq, Repr

def Place.free : Place := ⟨true, false⟩

structure Grammar where
  /-- More than the items that any list of the script can have. -/
  bound : Nat
  /-- An expression without commas. -/
  assignment : Place → Reader Expr
  /-- An expression without operators and subscripts. -/
  head : Reader Expr
  /-- An expression without operators. -/
  operand : Reader Expr
  /-- A variable or the pattern of several; yields the expressions in it. -/
  binding : Reader (List Expr)
  statement : Reader Expr
  /-- A type; nothing in it is ever called. -/
  type : Reader Unit
  /-- An element of markup; the cursor is left right behind it. -/
  markup : Reader Expr
  /-- Brackets and everything between them. -/
  bracketed : Reader Unit

namespace Grammar

open Reader

def empty (bound : Nat) : Grammar where
  bound := bound
  assignment _ := failure
  head := failure
  operand := failure
  binding := failure
  statement := failure
  type := failure
  markup := failure
  bracketed := failure

variable (grammar : Grammar)

def repeated {α : Type} (item : Reader (Option α)) : Reader (List α) :=
  many item grammar.bound

def listTo {α : Type} (close : String) (item : Reader (List α)) : Reader (List α) :=
  commaList (eat close) item grammar.bound

/-- An expression, and more behind commas. -/
def expression (place : Place) : Reader Expr := do
  let first ← grammar.assignment place
  let others ← grammar.repeated do
    if ← eat "," then
      let next ← grammar.assignment place
      return some next
    else return none
  return .ofParts (first :: others)

/-- A template behind its opening mark: the text, when it has no substitution,
and the substitutions.  Every part must have a meaning unless a tag gives it
one. -/
def templateParts (tagged : Bool) : Nat → Reader (List Nat × List Expr)
  | 0 => failure
  | bound + 1 => do
      match scanTemplate 0 (← rest) with
      | none => failure
      | some (codes, length) =>
          if codes.isNone && !tagged then failure
          takeRaw length
          if ← isAtChar '$' then
            take 2
            let inner ← grammar.expression .free
            charRaw '}'
            let (_, others) ← templateParts tagged bound
            return ([], inner :: others)
          else
            take 1
            return (codes.getD [], [])

def template (tagged : Bool) : Reader Expr := do
  charRaw '\u0060'
  let (codes, parts) ← grammar.templateParts tagged grammar.bound
  return if parts.isEmpty then .literal (textOf codes) else .group parts

/-- One thing between brackets: a string, a template, brackets again, or any other
character. -/
def bracketedItem : Reader (Option Unit) := do
  match ← rest with
  | [] => failure
  | c :: _ =>
      if c == ')' || c == ']' || c == '}' then return none
      else if c == '(' || c == '[' || c == '{' then some <$> grammar.bracketed
      else if c == '"' || c == '\'' then (fun _ => some ()) <$> string
      else if c == '\u0060' then (fun _ => some ()) <$> grammar.template true
      else some <$> take 1

/-- Brackets and everything between them. -/
def brackets : Reader Unit := do
  let close ← match ← rest with
    | '(' :: _ => pure ')'
    | '[' :: _ => pure ']'
    | '{' :: _ => pure '}'
    | _ => failure
  take 1
  let _ ← grammar.repeated grammar.bracketedItem
  char close

end Grammar

end TemplateMessages.Script

import TemplateMessages.Gettext.Translate
import TemplateMessages.Template.Filter
import TemplateMessages.Template.TransTag

/-!
# The filter `trans`

The filter translates its subject.  All five arguments may be left out or null.
`findArgument` finds an argument without evaluating it, by its name first and
then by its position among the arguments without a name.
-/

namespace TemplateMessages.Template

/-- The parameters of the filter, in positional order. -/
def transParameters : List String :=
  ["replacements", "domain", "context", "plural", "count"]

def findArgument (arguments : List (Argument Expr)) (name : String) : Option Expr :=
  match arguments.find? fun argument => argument.name == some name with
  | some argument => some argument.value
  | none =>
      match transParameters.idxOf? name with
      | none => none
      | some place =>
          ((arguments.filter fun argument => argument.name.isNone)[place]?).map (·.value)

/-- An argument of the filter that has no meaning for it. -/
def refused (argument reason : String) : RenderError :=
  .invalidArgument TransTag.filterName argument reason

def replacementsOf : Value → Except RenderError (Assoc String String)
  | .null => .ok []
  | .array [] => .ok []
  | .object members => .ok (members.map fun member => (member.1, member.2.display))
  | other => .error (refused "replacements" ("expected a mapping, got " ++ other.json))

def textOf : Value → Option String
  | .null => none
  | other => some other.display

@[simp]
theorem textOf_null : textOf .null = none := rfl

@[simp]
theorem textOf_string (text : String) : textOf (.string text) = some text := rfl

/-- The unsigned word that a text writes, with or without a plus sign. -/
def word? (text : List Char) : Option Nat :=
  let digits := if text.head? == some '+' then text.tail else text
  (Text.natural? digits).filter (· ≤ Number.wordMax)

def countOf : Value → Except RenderError (Option Nat)
  | .null => .ok none
  | .number value =>
      match value.count? with
      | some count => .ok (some count)
      | none => .error (refused "count" ("expected a non-negative number, got " ++ value.text))
  | .string value =>
      match word? (Text.trim value).toList with
      | some count => .ok (some count)
      | none => .error (refused "count" ("expected a number, got \"" ++ value ++ "\""))
  | other => .error (refused "count" ("expected a number, got " ++ other.json))

/-- The request of a subject with the values of its arguments. -/
def transRequest (subject : Value) (arguments : List Value) :
    Except RenderError Gettext.Request := do
  let argument (place : Nat) : Value := arguments[place]?.getD .null
  let replacements ← replacementsOf (argument 0)
  let count ← countOf (argument 4)
  return ⟨subject.display, replacements, textOf (argument 1), textOf (argument 2),
    textOf (argument 3), count⟩

def transFilter (catalog : Gettext.Catalog) : Filter where
  name := TransTag.filterName
  parameters := transParameters
  apply subject arguments := do
    let request ← transRequest subject arguments
    return .string (catalog.translate request)

end TemplateMessages.Template

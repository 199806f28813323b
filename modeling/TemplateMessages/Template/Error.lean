import TemplateMessages.Plural
import TemplateMessages.Template.SyntaxError

/-!
# Template errors

What can go wrong with a template: it may not be readable, a message with a
count may not have two alternatives, and an expression may not have a value.
-/

namespace TemplateMessages.Template

inductive RenderError where
  | unknownFilter (filter : String)
  | invalidArgument (filter argument reason : String)
  | unknownArgument (filter argument : String)
deriving DecidableEq, Repr

def RenderError.message : RenderError → String
  | .unknownFilter filter => "Unknown filter \"" ++ filter ++ "\"."
  | .invalidArgument filter argument reason =>
      "Invalid argument \"" ++ argument ++ "\" for filter \"" ++ filter ++ "\": " ++ reason
  | .unknownArgument filter argument =>
      "Filter \"" ++ filter ++ "\" has no argument named \"" ++ argument ++ "\"."

inductive TemplateError where
  | malformed (error : SyntaxError)
  | plural (error : Plural.PluralError)
  | render (error : RenderError)
deriving DecidableEq, Repr

namespace TemplateError

def message : TemplateError → String
  | .malformed error => error.message
  | .plural error => error.message
  | .render error => error.message

/-- A syntax error names its template; the other errors do not. -/
def inTemplate (error : TemplateError) (template : Option String) : TemplateError :=
  match error with
  | .malformed error => .malformed (error.inTemplate template)
  | other => other

end TemplateError

/-- What a reader of nodes answers when a reader of tokens or expressions does. -/
def reading {α : Type} (result : Except SyntaxError α) : Except TemplateError α :=
  result.mapError .malformed

section Results

variable {ε ε' α β : Type}

@[simp]
theorem ok_bind (value : α) (next : α → Except ε β) : Except.ok value >>= next = next value := rfl

@[simp]
theorem map_ok (value : α) (change : α → β) :
    (change <$> Except.ok value : Except ε β) = .ok (change value) := rfl

/-- Two steps succeed when the first does and the second does on its value. -/
theorem bind_eq_ok {first : Except ε α} {second : α → Except ε β} {value : β} :
    first >>= second = .ok value ↔ ∃ middle, first = .ok middle ∧ second middle = .ok value := by
  cases first with
  | error error => simp [bind, Except.bind]
  | ok middle => simp [bind, Except.bind]

theorem map_eq_ok {change : α → β} {result : Except ε α} {value : β} :
    result.map change = .ok value ↔ ∃ inner, result = .ok inner ∧ change inner = value := by
  cases result <;> simp [Except.map]

theorem mapError_eq_ok {change : ε → ε'} {result : Except ε α} {value : α} :
    result.mapError change = .ok value ↔ result = .ok value := by
  cases result with
  | error error =>
      have hleft : (Except.error error : Except ε α).mapError change = .error (change error) := rfl
      simp [hleft]
  | ok inner =>
      have hleft : (Except.ok inner : Except ε α).mapError change = .ok inner := rfl
      simp [hleft]

theorem reading_eq_ok {result : Except SyntaxError α} {value : α} :
    reading result = .ok value ↔ result = .ok value :=
  mapError_eq_ok

end Results

end TemplateMessages.Template

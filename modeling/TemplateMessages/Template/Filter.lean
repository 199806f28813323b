import TemplateMessages.Template.Error
import TemplateMessages.Template.Expr

/-!
# Values of expressions

An expression is evaluated in a context of variables and with a list of
filters.  A variable that the context does not hold is null.  The arguments of
a filter are placed by position or by the name of a parameter; a place that
nothing is put in is null.
-/

namespace TemplateMessages.Template

structure Filter where
  name : String
  /-- The names of the parameters, in positional order. -/
  parameters : List String
  apply : Value → List Value → Except RenderError Value

/-- The variables of a template. -/
abbrev Context := Assoc String Value

/-- Puts a value in a place, with nulls up to it where the list is too short. -/
def setPlace (value : Value) : Nat → List Value → List Value
  | 0, [] => [value]
  | 0, _ :: rest => value :: rest
  | place + 1, [] => .null :: setPlace value place []
  | place + 1, other :: rest => other :: setPlace value place rest

/-- The place of an argument: the next one for an argument without a name. -/
def Filter.placeOf (filter : Filter) (next : Nat) (name : Option String) :
    Except RenderError Nat :=
  match name with
  | none => .ok next
  | some name =>
      match filter.parameters.idxOf? name with
      | some place => .ok place
      | none => .error (.unknownArgument filter.name name)

namespace Expr

mutual

def evaluate (filters : List Filter) (context : Context) : Expr → Except RenderError Value
  | .constant value => .ok value
  | .name word => .ok ((context.get? word).getD .null)
  | .array items => do
      let values ← evaluateItems filters context items
      return .array values
  | .map entries => do
      let members ← evaluateEntries filters context [] entries
      return .object members
  | .filter subject word arguments _ =>
      match filters.find? fun filter => filter.name == word with
      | none => .error (.unknownFilter word)
      | some found => do
          let value ← evaluate filters context subject
          let values ← bindArguments filters context found 0 [] arguments
          found.apply value values
  | .merge left right => do
      let left ← evaluate filters context left
      let right ← evaluate filters context right
      return left.merge right

def evaluateItems (filters : List Filter) (context : Context) :
    List Expr → Except RenderError (List Value)
  | [] => .ok []
  | item :: rest => do
      let value ← evaluate filters context item
      let values ← evaluateItems filters context rest
      return value :: values

/-- Evaluates entries on top of the members that are there already. -/
def evaluateEntries (filters : List Filter) (context : Context) (members : Assoc String Value) :
    List (Expr × Expr) → Except RenderError (Assoc String Value)
  | [] => .ok members
  | (key, value) :: rest => do
      let key ← evaluate filters context key
      let value ← evaluate filters context value
      evaluateEntries filters context (members.put key.display value) rest

/-- Evaluates arguments into their places; `next` is the place of the next one
without a name. -/
def bindArguments (filters : List Filter) (context : Context) (filter : Filter) (next : Nat)
    (values : List Value) : List (Argument Expr) → Except RenderError (List Value)
  | [] => .ok values
  | ⟨label, argument⟩ :: rest => do
      let place ← filter.placeOf next label
      let value ← evaluate filters context argument
      bindArguments filters context filter (if label.isNone then next + 1 else next)
        (setPlace value place values) rest

end

end Expr

end TemplateMessages.Template

import TemplateMessages.Value

/-!
# Template expressions

A filter carries the line of its bar.  `merge` has no notation of its own: it
joins the replacements that a trans tag finds in its message with those that
the author computes.
-/

namespace TemplateMessages.Template

/-- An argument of a filter, by position or by name. -/
structure Argument (ε : Type) where
  name : Option String
  value : ε
deriving Repr, BEq

inductive Expr where
  | constant (value : Value)
  | name (name : String)
  | array (items : List Expr)
  | map (entries : List (Expr × Expr))
  | filter (subject : Expr) (name : String) (arguments : List (Argument Expr)) (line : Nat)
  | merge (left right : Expr)
deriving Repr, BEq, Inhabited

namespace Argument

variable {ε : Type}

def positional (value : ε) : Argument ε := ⟨none, value⟩

def named (name : String) (value : ε) : Argument ε := ⟨some name, value⟩

end Argument

namespace Expr

def string (value : String) : Expr := .constant (.string value)

def null : Expr := .constant .null

def constant? : Expr → Option Value
  | .constant value => some value
  | _ => none

/-- The value of a string constant. -/
def stringConstant? (expr : Expr) : Option String :=
  expr.constant?.bind Value.string?

theorem eq_string_of_stringConstant? {expr : Expr} {text : String}
    (hconstant : expr.stringConstant? = some text) : expr = .string text := by
  obtain ⟨value, hvalue, htext⟩ := Option.bind_eq_some_iff.mp hconstant
  cases expr with
  | constant found =>
      obtain rfl : found = value := Option.some.inj hvalue
      cases found with
      | string found =>
          obtain rfl : found = text := Option.some.inj htext
          rfl
      | _ => cases htext
  | _ => cases hvalue

mutual

/-- An expression and every expression in it, each in front of its parts. -/
def subterms : Expr → List Expr
  | .constant value => [.constant value]
  | .name word => [.name word]
  | .array items => .array items :: itemSubterms items
  | .map entries => .map entries :: entrySubterms entries
  | .filter subject word arguments line =>
      .filter subject word arguments line :: (subterms subject ++ argumentSubterms arguments)
  | .merge left right => .merge left right :: (subterms left ++ subterms right)

def itemSubterms : List Expr → List Expr
  | [] => []
  | item :: rest => subterms item ++ itemSubterms rest

def entrySubterms : List (Expr × Expr) → List Expr
  | [] => []
  | (key, value) :: rest => subterms key ++ subterms value ++ entrySubterms rest

def argumentSubterms : List (Argument Expr) → List Expr
  | [] => []
  | ⟨_, value⟩ :: rest => subterms value ++ argumentSubterms rest

end

end Expr

end TemplateMessages.Template

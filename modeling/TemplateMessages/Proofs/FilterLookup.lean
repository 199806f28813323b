import TemplateMessages.Proofs.Requests

/-!
# What a trans filter files and what it looks up

The message of a filter is taken from its arguments as they are written, and its
request from their values.  Both agree on a text that is a constant: an argument
that is missing or null is missing on both ways, and a string is the same
string.
-/

namespace TemplateMessages.Template

open TemplateMessages.Gettext (Catalog Lookup Request)

variable {catalog : Catalog} {context : Context} {arguments : List (Argument Expr)}

/-- The parameter is not supplied at all, or as null or a string constant. -/
def ConstantText (arguments : List (Argument Expr)) (parameter : String) : Prop :=
  ∀ expr, (some parameter, expr) ∈ supplies 0 arguments →
    expr = .null ∨ ∃ text, expr = .string text

/-- The place of a parameter holds the value of the argument that is found for it, or null. -/
theorem slot_of_findArgument (hsupplied : SuppliedOnce arguments) {bound : List Value}
    (hbind : Expr.bindArguments [transFilter catalog] context (transFilter catalog) 0 [] arguments =
      .ok bound) {place : Nat} {parameter : String}
    (hparameter : transParameters[place]? = some parameter) :
    match findArgument arguments parameter with
    | some expr => expr.evaluate [transFilter catalog] context = .ok (slot bound place)
    | none => slot bound place = .null := by
  have hslot := slot_bindArguments hparameter hbind
  rw [lastSupplied_eq_findArgument hsupplied] at hslot
  exact hslot

/-- A constant text is bound to what is written. -/
theorem textOf_slot (hsupplied : SuppliedOnce arguments) {bound : List Value}
    (hbind : Expr.bindArguments [transFilter catalog] context (transFilter catalog) 0 [] arguments =
      .ok bound) {place : Nat} {parameter : String}
    (hparameter : transParameters[place]? = some parameter)
    (hconstant : ConstantText arguments parameter) :
    textOf (slot bound place) = (findArgument arguments parameter).bind Expr.stringConstant? := by
  have hslot := slot_of_findArgument hsupplied hbind hparameter
  cases hfind : findArgument arguments parameter with
  | none =>
      rw [hfind] at hslot
      rw [hslot]
      rfl
  | some expr =>
      rw [hfind] at hslot
      rcases hconstant expr (mem_supplies_of_findArgument hfind) with rfl | ⟨text, rfl⟩
      · rw [← Except.ok.inj hslot]
        rfl
      · rw [← Except.ok.inj hslot]
        rfl

/-- A value that is taken whenever its parameter is supplied is taken in its place. -/
theorem accepted_slot {α : Type} {accept : Value → Except RenderError α}
    (hsupplied : SuppliedOnce arguments) {bound : List Value}
    (hbind : Expr.bindArguments [transFilter catalog] context (transFilter catalog) 0 [] arguments =
      .ok bound) {place : Nat} {parameter : String}
    (hparameter : transParameters[place]? = some parameter)
    (hnull : ∃ result, accept .null = .ok result)
    (haccepted : ∀ expr value, (some parameter, expr) ∈ supplies 0 arguments →
      expr.evaluate [transFilter catalog] context = .ok value →
      ∃ result, accept value = .ok result) :
    ∃ result, accept (slot bound place) = .ok result := by
  have hslot := slot_of_findArgument hsupplied hbind hparameter
  cases hfind : findArgument arguments parameter with
  | none =>
      rw [hfind] at hslot
      rw [hslot]
      exact hnull
  | some expr =>
      rw [hfind] at hslot
      exact haccepted expr _ (mem_supplies_of_findArgument hfind) hslot

/-- The domain that a message is filed under is the one that its lookup means. -/
theorem filedUnder_of_domain {message : Message} {found : Option Expr}
    (hmessage : message.domain = found.map MessageDomain.ofExpr)
    (hfound : ∀ expr, found = some expr →
      expr = .null ∨ ∃ domain, domain ≠ "" ∧ expr = .string domain) :
    message.filedUnder Catalog.defaultDomain =
      (found.bind Expr.stringConstant?).getD Catalog.defaultDomain := by
  cases found with
  | none => simp [Message.filedUnder, hmessage]
  | some expr =>
      rcases hfound expr rfl with rfl | ⟨domain, hne, rfl⟩
      · simp [Message.filedUnder, hmessage, MessageDomain.ofExpr, Expr.null, Expr.constant?,
          Expr.stringConstant?, Value.display, Value.string?]
      · simp [Message.filedUnder, hmessage, MessageDomain.ofExpr, Expr.string, Expr.constant?,
          Expr.stringConstant?, Value.display, Value.string?, hne]

/-- A parameter whose values are null and non-empty strings is a constant text. -/
theorem constantText_of_domain
    (hdomain : ∀ expr, (some "domain", expr) ∈ supplies 0 arguments →
      expr = .null ∨ ∃ domain, domain ≠ "" ∧ expr = .string domain) :
    ConstantText arguments "domain" := by
  intro expr hmem
  rcases hdomain expr hmem with hnull | ⟨domain, -, hstring⟩
  · exact .inl hnull
  · exact .inr ⟨domain, hstring⟩

/-- The message of a filter on a constant text. -/
theorem ofExpr?_filter (original : String) (arguments : List (Argument Expr)) (line : Nat) :
    Message.ofExpr? (.filter (.string original) TransTag.filterName arguments line) =
      some ⟨original, line, (findArgument arguments "plural").bind Expr.stringConstant?,
        (findArgument arguments "domain").map MessageDomain.ofExpr, none,
        (findArgument arguments "context").bind Expr.stringConstant?⟩ := by
  rw [Message.ofExpr?, if_pos rfl]
  rfl

/-- A filter whose arguments are bound asks for what the places hold. -/
theorem request?_filter (original : String) {bound : List Value}
    (hbind : Expr.bindArguments [transFilter catalog] context (transFilter catalog) 0 [] arguments =
      .ok bound) {replacements : Assoc String String} {count : Option Nat}
    (hreplaced : replacementsOf (slot bound 0) = .ok replacements)
    (hcounted : countOf (slot bound 4) = .ok count) (line : Nat) :
    Expr.request? catalog context (.filter (.string original) TransTag.filterName arguments line) =
      some (.ok ⟨original, replacements, textOf (slot bound 1), textOf (slot bound 2),
        textOf (slot bound 3), count⟩) := by
  have hrequest : transRequest (.string original) bound = _ := transRequest_of_count hcounted
  rw [hreplaced] at hrequest
  rw [Expr.request?, if_pos rfl, hbind, Expr.string, Expr.evaluate]
  exact congrArg some hrequest

/-- A filter with arguments by position and by name, one of them null. -/
def mixedArguments : List (Argument Expr) :=
  [.positional (.map []), ⟨some "count", .name "n"⟩, .positional .null,
    ⟨some "context", .string "c"⟩, ⟨some "plural", .string "b"⟩]

end TemplateMessages.Template

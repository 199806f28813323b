import TemplateMessages.Extraction.Collection
import TemplateMessages.Proofs.SuppliedArguments

/-!
# Requests and filings

Two things can become of a message in a template.  When the template is
rendered the filter `trans` makes a request, whose lookup is put to the
translations; when messages are collected the message is filed as an entry of a
domain.  This module says what the request of an expression and the filing of a
message are.
-/

namespace TemplateMessages

open TemplateMessages.Gettext (Catalog Request)

namespace Catalogues

/-- The entries of all domains, each with its domain. -/
def filings (catalogues : Catalogues) : List (String × Catalogue.Translation) :=
  catalogues.entries.flatMap fun entry => entry.2.translations.map (Prod.mk entry.1)

/-- A message on its own is filed as one entry. -/
theorem filings_ofMessages_singleton (defaultDomain path : String) (message : Message) :
    (ofMessages defaultDomain path [message]).filings =
      [(message.filedUnder defaultDomain, ⟨message.key, message.details path⟩)] := rfl

end Catalogues

namespace Template

variable (catalog : Catalog) (context : Context)

/-- The expression has a value among the translations and variables at hand. -/
def Expr.Evaluates (expr : Expr) : Prop :=
  ∃ value, expr.evaluate [transFilter catalog] context = .ok value

/-- The request that an expression makes, when it is a `trans` filter: its subject and its
arguments are evaluated and the filter takes them. -/
def Expr.request? : Expr → Option (Except RenderError Request)
  | .filter subject word arguments _ =>
      if word = TransTag.filterName then
        some do
          let value ← subject.evaluate [transFilter catalog] context
          let values ← Expr.bindArguments [transFilter catalog] context (transFilter catalog) 0 []
            arguments
          transRequest value values
      else none
  | _ => none

/-- The request of a subject, once the count is known. -/
theorem transRequest_of_count {subject : Value} {arguments : List Value} {count : Option Nat}
    (hcount : countOf (slot arguments 4) = .ok count) :
    transRequest subject arguments =
      (replacementsOf (slot arguments 0)).map fun replacements =>
        ⟨subject.display, replacements, textOf (slot arguments 1), textOf (slot arguments 2),
          textOf (slot arguments 3), count⟩ := by
  unfold slot at hcount
  unfold transRequest slot
  dsimp only
  rw [hcount]
  cases replacementsOf (arguments[0]?.getD .null) <;> rfl

theorem apply_transFilter (subject : Value) (arguments : List Value) :
    (transFilter catalog).apply subject arguments =
      (fun request => .string (catalog.translate request)) <$> transRequest subject arguments := by
  cases h : transRequest subject arguments <;> simp [transFilter, h]

theorem find?_transFilter :
    ([transFilter catalog].find? fun filter => filter.name == TransTag.filterName) =
      some (transFilter catalog) := by
  simp [transFilter]

/-- What is rendered for a `trans` filter is the translation of its request. -/
theorem Expr.evaluate_of_request? {expr : Expr} {request : Except RenderError Request}
    (hrequest : expr.request? catalog context = some request) :
    expr.evaluate [transFilter catalog] context =
      (fun request => .string (catalog.translate request)) <$> request := by
  cases expr with
  | filter subject word arguments line =>
      rw [request?] at hrequest
      split at hrequest
      case isTrue hword =>
        subst hword
        obtain rfl := Option.some.inj hrequest
        rw [evaluate, find?_transFilter]
        simp only [apply_transFilter, map_bind]
      case isFalse => cases hrequest
  | _ => simp [request?] at hrequest

end Template

end TemplateMessages

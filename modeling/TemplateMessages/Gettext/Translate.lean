import TemplateMessages.Gettext.Catalog
import TemplateMessages.Gettext.Substitution

/-!
# Translation

A message is translated by looking it up and substituting its replacements into
the answer.  The count of a counted message is bound to `%count%` unless the
replacements bind that token themselves.
-/

namespace TemplateMessages.Gettext

/-- A message to translate, with the values of its tokens. -/
structure Request where
  original : String
  replacements : Assoc String String
  domain : Option String
  context : Option String
  plural : Option String
  count : Option Nat
deriving Repr

namespace Request

def countToken : String := "%count%"

def lookup (request : Request) : Lookup :=
  .ofRequest request.domain request.context request.original request.plural request.count

/-- The replacements with the count bound. -/
def tokens (request : Request) : Assoc String String :=
  match request.count with
  | some count =>
      if request.replacements.has countToken then request.replacements
      else request.replacements.put countToken (toString count)
  | none => request.replacements

end Request

def Catalog.translate (catalog : Catalog) (request : Request) : String :=
  substitute request.tokens (catalog.answer request.lookup)

end TemplateMessages.Gettext

import TemplateMessages.Catalogue.Translation
import TemplateMessages.DomainMap

/-!
# Catalogues

A catalogue holds the entries of one domain in the order in which their keys
first arrived, and catalogues are listed by domain.  Adding an entry whose key
is present joins the two, so it does not matter in how many portions messages
arrive.
-/

namespace TemplateMessages

/-- The entries of one domain. -/
abbrev Catalogue := OrderedMap Catalogue.TranslationKey Catalogue.Details

namespace Catalogue

def translations (catalogue : Catalogue) : List Translation :=
  catalogue.entries.map fun entry => ⟨entry.1, entry.2⟩

/-- Adds an entry, joining it with a present one of its key. -/
def add (catalogue : Catalogue) (translation : Translation) : Catalogue :=
  catalogue.alter translation.key translation.details.join

/-- Adds every entry of another catalogue, in order. -/
def merge (catalogue other : Catalogue) : Catalogue :=
  other.translations.foldl add catalogue

/-- Equal up to the order of entries and references. -/
def sameAs (left right : Catalogue) : Bool :=
  left.size == right.size &&
    left.entries.all fun entry =>
      match right.get? entry.1 with
      | some details => entry.2.sameAs details
      | none => false

end Catalogue

/-- Catalogues by domain. -/
abbrev Catalogues := DomainMap Catalogue

namespace Catalogues

/-- The catalogue of a domain, created when missing, changed by `change`. -/
def inDomain (catalogues : Catalogues) (domain : String) (change : Catalogue → Catalogue) :
    Catalogues :=
  catalogues.alter domain fun present => change (present.getD OrderedMap.empty)

def add (catalogues : Catalogues) (domain : String) (translation : Catalogue.Translation) :
    Catalogues :=
  catalogues.inDomain domain fun catalogue => catalogue.add translation

/-- The entries of a domain, none where the domain is missing. -/
def translationsIn (catalogues : Catalogues) (domain : String) : List Catalogue.Translation :=
  Catalogue.translations ((catalogues.get? domain).getD .empty)

/-- What a domain holds when another catalogue joins what is there; a domain
that is new takes the catalogue as it is. -/
def joinDomain (added : Catalogue) : Option Catalogue → Catalogue
  | some present => present.merge added
  | none => added

def merge (catalogues other : Catalogues) : Catalogues :=
  other.entries.foldl
    (fun merged entry => merged.alter entry.1 (joinDomain entry.2)) catalogues

/-- The count of entries in all domains. -/
def messageCount (catalogues : Catalogues) : Nat :=
  catalogues.entries.foldr (fun entry count => entry.2.size + count) 0

def isEmpty (catalogues : Catalogues) : Bool :=
  catalogues.entries.all fun entry => entry.2.entries.isEmpty

/-- Equal up to the order of entries and references. -/
def sameAs (left right : Catalogues) : Bool :=
  left.domains == right.domains &&
    (left.entries.zip right.entries).all fun pair => pair.1.2.sameAs pair.2.2

end Catalogues

end TemplateMessages

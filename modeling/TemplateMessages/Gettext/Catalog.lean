import TemplateMessages.Assoc
import TemplateMessages.Gettext.Lookup

/-!
# Translation catalogues

A catalogue holds translations by locale and domain and answers lookups in its
current locale.  Of two translations stored for one message the later one
counts.  A missing or empty translation falls back to the text of the lookup.
-/

namespace TemplateMessages.Gettext

/-- Where a message is stored: the context, if any, is part of its identifier. -/
structure MessageKey where
  locale : String
  domain : String
  id : String
deriving DecidableEq, Repr

structure Catalog where
  locale : String
  messages : Assoc MessageKey String
  plurals : Assoc (MessageKey × String) (List String)
deriving Repr

/-- The identifier of a message: its text, behind its context and U+0004. -/
def messageId (context : Option String) (original : String) : String :=
  match context with
  | some context => context ++ "\u0004" ++ original
  | none => original

namespace Catalog

/-- The domain of a lookup that names none. -/
def defaultDomain : String := "messages"

def empty (locale : String) : Catalog := ⟨locale, [], []⟩

def setLocale (catalog : Catalog) (locale : String) : Catalog :=
  ⟨locale, catalog.messages, catalog.plurals⟩

def addMessage (catalog : Catalog) (locale domain : String) (context : Option String)
    (original translation : String) : Catalog :=
  let key : MessageKey := ⟨locale, domain, messageId context original⟩
  ⟨catalog.locale, catalog.messages.put key translation, catalog.plurals⟩

def addPluralMessage (catalog : Catalog) (locale domain : String) (context : Option String)
    (original plural : String) (forms : List String) : Catalog :=
  let key : MessageKey := ⟨locale, domain, messageId context original⟩
  ⟨catalog.locale, catalog.messages, catalog.plurals.put (key, plural) forms⟩

/-- Where the catalogue looks for a message. -/
def keyOf (catalog : Catalog) (lookup : Lookup) : MessageKey :=
  ⟨catalog.locale, lookup.domain.getD defaultDomain,
    messageId lookup.context lookup.original⟩

/-- A translation that says something. -/
def present (translation : String) : Option String :=
  if translation.isEmpty then none else some translation

/-- The form for a count: the first for one, the second for any other, and the
last when there are too few. -/
def form? (forms : List String) (count : Nat) : Option String :=
  forms[min (if count = 1 then 0 else 1) (forms.length - 1)]?

/-- The translation that a lookup finds, or the text it falls back to. -/
def answer (catalog : Catalog) (lookup : Lookup) : String :=
  match lookup.counted with
  | none =>
      ((catalog.messages.get? (catalog.keyOf lookup)).bind present).getD lookup.original
  | some (plural, count) =>
      ((catalog.plurals.get? (catalog.keyOf lookup, plural)).bind fun forms =>
        (form? forms count).bind present).getD
          (if count = 1 then lookup.original else plural)

end Catalog

end TemplateMessages.Gettext

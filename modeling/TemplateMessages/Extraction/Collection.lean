import TemplateMessages.Catalogue.Catalogues
import TemplateMessages.Message

/-!
# Collecting messages

A message that is found somewhere becomes an entry of the catalogue of its
domain.  A message without a domain, or with an empty one, goes to the default
domain; one whose domain is not known yet is kept apart.
-/

namespace TemplateMessages

namespace Message

/-- The domain that a message is filed under. -/
def filedUnder (message : Message) (defaultDomain : String) : String :=
  match message.domain with
  | none => defaultDomain
  | some (.literal domain) => if domain.isEmpty then defaultDomain else domain
  | some .undefined => MessageDomain.undefinedName

def key (message : Message) : Catalogue.TranslationKey :=
  ⟨message.context, Text.trim message.original⟩

/-- What one occurrence of a message in a file says. -/
def details (message : Message) (path : String) : Catalogue.Details :=
  ⟨message.plural, message.notes.toList, .ofList [⟨path, message.line⟩]⟩

end Message

namespace Catalogues

def addMessage (defaultDomain path : String) (catalogues : Catalogues) (message : Message) :
    Catalogues :=
  catalogues.add (message.filedUnder defaultDomain) ⟨message.key, message.details path⟩

/-- The catalogues of the messages of one file. -/
def ofMessages (defaultDomain path : String) (messages : List Message) : Catalogues :=
  messages.foldl (addMessage defaultDomain path) .empty

end Catalogues

end TemplateMessages

import TemplateMessages.Catalogue.Catalogues
import TemplateMessages.Plural
import TemplateMessages.Text.Digit

/-!
# Message stores

A store is flat: per domain it maps keys to target texts, and keys may carry
metadata.  Two messages of one text and different contexts need two keys, so a
message with a context is stored behind a marker `HAS_CONTEXT<n>::`, where `n`
is the least number whose key is free.  No message with a context takes the key
of one without, wherever the two stand.
-/

namespace TemplateMessages.Catalogue

structure Metadata where
  comments : List String
  flags : List String
  sources : List String
  context : Option String
deriving DecidableEq, Repr

def Metadata.empty : Metadata := ⟨[], [], [], none⟩

structure Store where
  locale : String
  messages : DomainMap (OrderedMap String String)
  metadata : DomainMap (OrderedMap String Metadata)

inductive StoreError where
  /-- The store cannot be asked for metadata. -/
  | metadataUnsupported
deriving DecidableEq, Repr

def StoreError.message : StoreError → String
  | .metadataUnsupported =>
      "The passed in message catalogue must support metadata lookups."

/-- The word that every marker of a context starts with. -/
def contextWord : String := "HAS_CONTEXT"

def contextKey (number : Nat) (id : String) : String :=
  contextWord ++ toString number ++ "::" ++ id

/-- The key with the least number that is not taken.  There is one among the
first numbers, one more than there are taken keys. -/
def freeContextKey (taken : List String) (id : String) : String :=
  (((List.range (taken.length + 1)).map fun number => contextKey number id).find?
    fun key => !taken.contains key).getD id

/-- What follows a marker at the start of a text. -/
def afterMarker? (text : List Char) : Option (List Char) :=
  match contextWord.toList.isPrefixOf? text with
  | none => none
  | some rest =>
      let digits := rest.takeWhile Text.isDecimalDigit
      if digits.isEmpty then none else [':', ':'].isPrefixOf? (rest.drop digits.length)

/-- The text without its first marker. -/
def dropMarker : List Char → List Char
  | [] => []
  | c :: rest => (afterMarker? (c :: rest)).getD (c :: dropMarker rest)

/-- The key without its marker, when its metadata records a context; any other
key is left as it is. -/
def dropContext (metadata : Option Metadata) (key : String) : String :=
  if contextWord.toList.isPrefixOf key.toList && metadata.any (·.context.isSome) then
    String.ofList (dropMarker key.toList)
  else key

namespace Store

def empty (locale : String) : Store := ⟨locale, .empty, .empty⟩

/-- The keys and targets of a domain, in the order in which they arrived. -/
def all (store : Store) (domain : String) : List (String × String) :=
  ((store.messages.get? domain).getD .empty).entries

def keys (store : Store) (domain : String) : List String :=
  Assoc.keys (store.all domain)

def metadata? (store : Store) (key domain : String) : Option Metadata :=
  (store.metadata.get? domain).bind fun metadata => metadata.get? key

def set (store : Store) (key target domain : String) : Store :=
  ⟨store.locale,
    store.messages.alter domain fun present => (present.getD .empty).put key target,
    store.metadata⟩

/-- Changes the metadata of a key, created empty when missing. -/
def annotate (store : Store) (key domain : String) (change : Metadata → Metadata) : Store :=
  ⟨store.locale, store.messages,
    store.metadata.alter domain fun present =>
      (present.getD .empty).alter key fun metadata => change (metadata.getD .empty)⟩

theorem all_set_self (store : Store) (key target domain : String) :
    (store.set key target domain).all domain = Assoc.put key target (store.all domain) := by
  simp [all, set, OrderedMap.put]

theorem all_set_of_ne (store : Store) {domain other : String} (h : other ≠ domain)
    (key target : String) : (store.set key target domain).all other = store.all other := by
  simp [all, set, DomainMap.get?_alter_of_ne _ h]

theorem metadata?_annotate_self (store : Store) (key domain : String)
    (change : Metadata → Metadata) :
    (store.annotate key domain change).metadata? key domain =
      some (change ((store.metadata? key domain).getD .empty)) := by
  cases h : store.metadata.get? domain <;>
    simp [metadata?, annotate, OrderedMap.alter, h]

theorem metadata?_annotate_of_ne (store : Store) {key other : String} (h : other ≠ key)
    (domain : String) (change : Metadata → Metadata) :
    (store.annotate key domain change).metadata? other domain = store.metadata? other domain := by
  cases hdomain : store.metadata.get? domain <;>
    simp [metadata?, annotate, OrderedMap.alter, hdomain, OrderedMap.get?_put_of_ne _ h]

theorem metadata?_annotate_of_ne_domain (store : Store) {domain other : String}
    (h : other ≠ domain) (key name : String) (change : Metadata → Metadata) :
    (store.annotate key domain change).metadata? name other = store.metadata? name other := by
  simp [metadata?, annotate, DomainMap.get?_alter_of_ne _ h]

/-- The identifier of an entry: its text, or its text and plural as rules. -/
def messageId (translation : Translation) : String :=
  match translation.details.plural with
  | some plural => Plural.join translation.key.original plural
  | none => translation.key.original

theorem messageId_of_none {translation : Translation} (h : translation.details.plural = none) :
    messageId translation = translation.key.original := by
  rw [messageId, h]

theorem messageId_of_some {translation : Translation} {plural : String}
    (h : translation.details.plural = some plural) :
    messageId translation = Plural.join translation.key.original plural := by
  rw [messageId, h]

/-- The identifiers of those entries that have no context. -/
def idsWithoutContext (translations : List Translation) : List String :=
  (translations.filter fun translation => translation.key.context.isNone).map messageId

def plainIds (catalogue : Catalogue) : List String :=
  idsWithoutContext catalogue.translations

/-- The key that an entry is stored under, next to reserved keys. -/
def keyFor (store : Store) (reserved : List String) (domain : String)
    (translation : Translation) : String :=
  match translation.key.context with
  | some _ => freeContextKey (reserved ++ store.keys domain) (messageId translation)
  | none => messageId translation

/-- Stores one entry of a domain. -/
def importTranslation (reserved : List String) (domain : String) (store : Store)
    (translation : Translation) : Store :=
  let key := store.keyFor reserved domain translation
  (store.set key (messageId translation) domain).annotate key domain fun metadata =>
    ⟨metadata.comments ++ translation.details.comments, metadata.flags,
      metadata.sources ++ translation.details.references.toList.map Reference.text,
      translation.key.context⟩

def importCatalogue (store : Store) (domain : String) (catalogue : Catalogue) : Store :=
  catalogue.translations.foldl (importTranslation (plainIds catalogue) domain) store

/-- Stores every entry of every domain. -/
def importAll (store : Store) (catalogues : Catalogues) : Store :=
  catalogues.entries.foldl (fun store entry => store.importCatalogue entry.1 entry.2) store

/-- What can be asked of a store.  Not every store can tell metadata. -/
structure View where
  locale : String
  /-- The keys and targets of a domain, in order. -/
  all : String → List (String × String)
  /-- The metadata of a key in a domain. -/
  metadata : Option (String → String → Option Metadata)

def view (store : Store) : View :=
  ⟨store.locale, store.all, some store.metadata?⟩

/-- The store without its metadata. -/
def plainView (store : Store) : View :=
  ⟨store.locale, store.all, none⟩

namespace View

def keys (view : View) (domain : String) : List String :=
  Assoc.keys (view.all domain)

def has (view : View) (key domain : String) : Bool :=
  (view.keys domain).contains key

def metadata? (view : View) (key domain : String) : Option Metadata :=
  view.metadata.bind fun lookup => lookup key domain

/-- A key that no message of the domain has. -/
def contextualise (view : View) (key domain : String) : String :=
  freeContextKey (view.keys domain) key

/-- The key without its marker; a store that cannot tell metadata cannot tell
either whether a key has one. -/
def decontextualise (view : View) (key domain : String) : Except StoreError String :=
  if view.metadata.isNone then .error .metadataUnsupported
  else .ok (dropContext (view.metadata? key domain) key)

end View

end Store

end TemplateMessages.Catalogue

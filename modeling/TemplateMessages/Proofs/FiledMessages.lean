import Mathlib.Data.List.Induction
import TemplateMessages.Proofs.Merging

/-!
# Filed messages

Catalogues that messages are added to one by one account for each of them: there
is an entry for a domain and a key when a message with both has been added, and
it says what these messages say, in the order in which they came.  Of a plural
the first counts, notes are all kept, and a place is listed once, where it was
first met.  A message that is added changes the entry of its own domain and key
alone, so each entry is followed through the messages that belong to it.
-/

namespace TemplateMessages

open Catalogue (Details Reference References Translation TranslationKey)

/-- A message with the path under which its file is noted. -/
abbrev Occurrence := String × Message

namespace Occurrence

def key (occurrence : Occurrence) : TranslationKey :=
  occurrence.2.key

def reference (occurrence : Occurrence) : Reference :=
  ⟨occurrence.1, occurrence.2.line⟩

/-- What the occurrence adds to the catalogue of its domain. -/
def translation (occurrence : Occurrence) : Translation :=
  ⟨occurrence.2.key, occurrence.2.details occurrence.1⟩

end Occurrence

/-- The domain to which a message belongs: its own when that is known and not empty. -/
inductive Message.BelongsTo (defaultDomain : String) (message : Message) : String → Prop
  | absent (hdomain : message.domain = none) : BelongsTo defaultDomain message defaultDomain
  | empty (hdomain : message.domain = some (.literal "")) : BelongsTo defaultDomain message defaultDomain
  | literal {domain : String} (hdomain : message.domain = some (.literal domain)) (hname : domain ≠ "") :
      BelongsTo defaultDomain message domain
  | undefined (hdomain : message.domain = some .undefined) :
      BelongsTo defaultDomain message MessageDomain.undefinedName

/-- Messages are filed where they belong. -/
theorem Message.belongsTo_iff {defaultDomain domain : String} {message : Message} :
    message.BelongsTo defaultDomain domain ↔ message.filedUnder defaultDomain = domain := by
  unfold filedUnder
  constructor
  · rintro (hdomain | hdomain | ⟨hdomain, hname⟩ | hdomain)
    · rw [hdomain]
    · rw [hdomain]
      rfl
    · rw [hdomain]
      exact if_neg (mt String.isEmpty_iff.mp hname)
    · rw [hdomain]
  · intro hfiled
    split at hfiled
    case h_1 hdomain => exact hfiled ▸ .absent hdomain
    case h_2 name hdomain =>
      split at hfiled
      case isTrue hempty => exact hfiled ▸ .empty (String.isEmpty_iff.mp hempty ▸ hdomain)
      case isFalse hempty => exact hfiled ▸ .literal hdomain (mt String.isEmpty_iff.mpr hempty)
    case h_3 hdomain => exact hfiled ▸ .undefined hdomain

instance (defaultDomain : String) (message : Message) (domain : String) :
    Decidable (message.BelongsTo defaultDomain domain) :=
  decidable_of_iff _ Message.belongsTo_iff.symm

/-- Only the first of equal elements is kept, so an element at the end is new or has no effect. -/
theorem eraseDups_concat {α : Type} [DecidableEq α] (items : List α) (item : α) :
    (items ++ [item]).eraseDups =
      if item ∈ items.eraseDups then items.eraseDups else items.eraseDups ++ [item] := by
  rw [List.eraseDups_append]
  split
  case isTrue hmem => simp [List.removeAll, List.mem_eraseDups.mp hmem]
  case isFalse hmem =>
    have hnew : item ∉ items := mt List.mem_eraseDups.mpr hmem
    simp [List.removeAll, hnew, List.eraseDups_cons]

namespace Catalogue

/-! ## One entry -/

/-- The details say what the occurrences of one entry say. -/
structure Details.AccountsFor (details : Details) (occurrences : List Occurrence) : Prop where
  plural : details.plural = occurrences.findSome? fun occurrence => occurrence.2.plural
  comments : details.comments = occurrences.filterMap fun occurrence => occurrence.2.notes
  references : details.references.toList = (occurrences.map Occurrence.reference).eraseDups

namespace Details.AccountsFor

variable {details : Details} {occurrences : List Occurrence}

/-- An occurrence that is the first of its entry. -/
theorem first (occurrence : Occurrence) :
    (occurrence.translation.details.join none).AccountsFor [occurrence] where
  plural := by
    rw [List.findSome?_singleton]
    rfl
  comments := by
    cases hnotes : occurrence.2.notes <;> simp [join, Occurrence.translation, Message.details, hnotes]
  references := rfl

/-- An occurrence that comes to an entry that is there. -/
theorem join (hdetails : details.AccountsFor occurrences) (occurrence : Occurrence) :
    (occurrence.translation.details.join (some details)).AccountsFor (occurrences ++ [occurrence]) where
  plural := by
    rw [List.findSome?_append, ← hdetails.plural, List.findSome?_singleton]
    rfl
  comments := by
    rw [List.filterMap_append, ← hdetails.comments]
    cases hnotes : occurrence.2.notes <;>
      simp [Details.join, merge, Occurrence.translation, Message.details, hnotes]
  references := by
    have hinsert : (occurrence.translation.details.join (some details)).references =
        details.references.insert occurrence.reference := rfl
    rw [hinsert, References.toList_insert, List.map_append, List.map_singleton, eraseDups_concat,
      ← hdetails.references]

end Details.AccountsFor

/-! ## One domain -/

/-- An entry stands under its own key. -/
theorem get?_of_mem_translations {catalogue : Catalogue} {translation : Translation}
    (hmem : translation ∈ catalogue.translations) :
    catalogue.get? translation.key = some translation.details := by
  obtain ⟨entry, hentry, rfl⟩ := List.mem_map.mp hmem
  exact (Assoc.get?_eq_some_iff catalogue.nodup).mpr hentry

/-- The entries of the catalogue stand in the order in which their keys first occur, and each of
them says what the occurrences of its key say. -/
structure AccountsFor (catalogue : Catalogue) (occurrences : List Occurrence) : Prop where
  keys : catalogue.keys = (occurrences.map Occurrence.key).eraseDups
  details : ∀ {key : TranslationKey} {details : Details}, catalogue.get? key = some details →
    details.AccountsFor (occurrences.filter fun occurrence => occurrence.key = key)

namespace AccountsFor

variable {catalogue : Catalogue} {occurrences : List Occurrence}

theorem empty : AccountsFor OrderedMap.empty [] where
  keys := rfl
  details := nofun

theorem mem_keys_iff (hcatalogue : catalogue.AccountsFor occurrences) {key : TranslationKey} :
    key ∈ catalogue.keys ↔ ∃ occurrence ∈ occurrences, occurrence.key = key := by
  rw [hcatalogue.keys, List.mem_eraseDups, List.mem_map]

theorem filter_eq_nil (hcatalogue : catalogue.AccountsFor occurrences) {key : TranslationKey}
    (habsent : catalogue.get? key = none) :
    occurrences.filter (fun occurrence => occurrence.key = key) = [] := by
  have hkey : key ∉ catalogue.keys := Assoc.get?_eq_none_iff.mp habsent
  rw [List.filter_eq_nil_iff]
  intro occurrence hoccurrence hsame
  exact hkey (hcatalogue.mem_keys_iff.mpr ⟨occurrence, hoccurrence, of_decide_eq_true hsame⟩)

theorem add (hcatalogue : catalogue.AccountsFor occurrences) (occurrence : Occurrence) :
    AccountsFor (catalogue.add occurrence.translation) (occurrences ++ [occurrence]) where
  keys := by
    rw [keys_add, List.map_append, List.map_singleton, eraseDups_concat, ← hcatalogue.keys]
    rfl
  details := by
    intro key details hget
    rw [List.filter_append]
    by_cases hkey : occurrence.key = key
    · subst hkey
      have hself : (catalogue.add occurrence.translation).get? occurrence.key =
          some (occurrence.translation.details.join (catalogue.get? occurrence.key)) :=
        get?_add_self catalogue occurrence.translation
      obtain rfl := Option.some.inj (hself.symm.trans hget)
      rw [List.filter_cons_of_pos (by simp), List.filter_nil]
      cases hpresent : catalogue.get? occurrence.key with
      | none =>
          rw [hcatalogue.filter_eq_nil hpresent]
          exact .first occurrence
      | some present => exact (hcatalogue.details hpresent).join occurrence
    · rw [get?_add_of_ne _ _ (Ne.symm hkey)] at hget
      rw [List.filter_cons_of_neg (by simpa using hkey), List.filter_nil, List.append_nil]
      exact hcatalogue.details hget

end AccountsFor

end Catalogue

/-! ## All domains -/

namespace Catalogues

/-- The catalogues of messages that are added one by one. -/
def ofOccurrences (defaultDomain : String) (occurrences : List Occurrence) : Catalogues :=
  occurrences.foldl
    (fun added occurrence => added.addMessage defaultDomain occurrence.1 occurrence.2) .empty

/-- There is a catalogue for each domain to which a message belongs, and for no other, and it
accounts for the messages that belong there. -/
structure AccountsFor (catalogues : Catalogues) (defaultDomain : String)
    (occurrences : List Occurrence) : Prop where
  domains : ∀ domain, domain ∈ catalogues.domains ↔
    ∃ occurrence ∈ occurrences, occurrence.2.BelongsTo defaultDomain domain
  catalogue : ∀ {domain : String} {catalogue : Catalogue}, catalogues.get? domain = some catalogue →
    catalogue.AccountsFor
      (occurrences.filter fun occurrence => occurrence.2.BelongsTo defaultDomain domain)

namespace AccountsFor

variable {catalogues : Catalogues} {defaultDomain : String} {occurrences : List Occurrence}

theorem empty (defaultDomain : String) : AccountsFor .empty defaultDomain [] where
  domains := by simp [DomainMap.domains, DomainMap.empty]
  catalogue := nofun

/-- A domain that is not there has no messages yet. -/
theorem filter_eq_nil (hcatalogues : catalogues.AccountsFor defaultDomain occurrences) {domain : String}
    (habsent : catalogues.get? domain = none) :
    occurrences.filter (fun occurrence => occurrence.2.BelongsTo defaultDomain domain) = [] := by
  have hdomain : domain ∉ catalogues.domains := by
    rw [DomainMap.mem_domains_iff, not_not]
    exact habsent
  rw [List.filter_eq_nil_iff]
  intro occurrence hoccurrence hbelongs
  exact hdomain ((hcatalogues.domains domain).mpr ⟨occurrence, hoccurrence, of_decide_eq_true hbelongs⟩)

theorem addMessage (hcatalogues : catalogues.AccountsFor defaultDomain occurrences)
    (occurrence : Occurrence) :
    (catalogues.addMessage defaultDomain occurrence.1 occurrence.2).AccountsFor defaultDomain
      (occurrences ++ [occurrence]) where
  domains := by
    intro domain
    have hadded : domain ∈ (catalogues.addMessage defaultDomain occurrence.1 occurrence.2).domains ↔
        domain = occurrence.2.filedUnder defaultDomain ∨ domain ∈ catalogues.domains :=
      catalogues.mem_domains_alter _ domain _
    rw [hadded, hcatalogues.domains, or_comm, eq_comm, ← Message.belongsTo_iff]
    simp [or_and_right, exists_or]
  catalogue := by
    intro domain catalogue hget
    rw [Catalogues.addMessage] at hget
    rw [List.filter_append]
    by_cases hdomain : occurrence.2.filedUnder defaultDomain = domain
    · have hbelongs := Message.belongsTo_iff.mpr hdomain
      subst hdomain
      rw [get?_add_self] at hget
      obtain rfl := Option.some.inj hget
      rw [List.filter_cons_of_pos (by simpa using hbelongs), List.filter_nil]
      cases hpresent : catalogues.get? (occurrence.2.filedUnder defaultDomain) with
      | none =>
          rw [hcatalogues.filter_eq_nil hpresent]
          exact Catalogue.AccountsFor.empty.add occurrence
      | some present => exact (hcatalogues.catalogue hpresent).add occurrence
    · have hbelongs := mt Message.belongsTo_iff.mp hdomain
      rw [get?_add_of_ne _ (Ne.symm hdomain)] at hget
      rw [List.filter_cons_of_neg (by simpa using hbelongs), List.filter_nil, List.append_nil]
      exact hcatalogues.catalogue hget

/-- The keys of a domain, whether it is there or not. -/
theorem keys_translationsIn (hcatalogues : catalogues.AccountsFor defaultDomain occurrences)
    (domain : String) :
    (catalogues.translationsIn domain).map Translation.key =
      ((occurrences.filter fun occurrence => occurrence.2.BelongsTo defaultDomain domain).map
        Occurrence.key).eraseDups := by
  unfold translationsIn
  cases hget : catalogues.get? domain with
  | none =>
      rw [hcatalogues.filter_eq_nil hget]
      rfl
  | some catalogue =>
      rw [← (hcatalogues.catalogue hget).keys, Option.getD_some, Catalogue.translations, List.map_map]
      rfl

end AccountsFor

end Catalogues

end TemplateMessages

import Mathlib.Data.List.Forall2
import TemplateMessages.Proofs.StoredKeys

/-!
# What an import leaves in a store

While the identifiers of the entries without a context are different from each
other, every entry has a key of its own: an entry with a context never takes the
key of one without, and the search for its marker passes over the keys that are
there.  So the messages of a domain stand for the entries of its catalogue, one
for one and in their order.
-/

namespace TemplateMessages.Catalogue.Store

/-! ## Messages and entries -/

/-- A message of a store is what an entry has been stored as. -/
structure StandsFor (store : Store) (reserved : List String) (domain : String)
    (message : String × String) (translation : Translation) : Prop where
  target : message.2 = messageId translation
  plain : translation.key.context = none → message.1 = messageId translation
  marked : translation.key.context.isSome →
    message.1 ∉ reserved ∧ ∃ number, message.1 = contextKey number (messageId translation)
  metadata : store.metadata? message.1 domain = some (recorded .empty translation)

/-- The messages of a domain stand for entries, in their order, and nothing else is annotated. -/
structure Holds (store : Store) (reserved : List String) (domain : String)
    (translations : List Translation) : Prop where
  messages : List.Forall₂ (StandsFor store reserved domain) (store.all domain) translations
  unannotated : ∀ key ∉ store.keys domain, store.metadata? key domain = none

/-- Taking the context off the key of a message leaves the identifier of its entry. -/
theorem StandsFor.dropContext_eq {store : Store} {reserved : List String} {domain : String}
    {message : String × String} {translation : Translation}
    (h : StandsFor store reserved domain message translation) :
    dropContext (store.metadata? message.1 domain) message.1 = messageId translation := by
  rw [h.metadata]
  exact dropContext_eq_of_marked h.plain fun hsome => (h.marked hsome).2

/-! ## Entries with keys of their own -/

section Own

variable {store : Store} {reserved : List String} {domain : String} {filed : List Filed}

/-- Entries with keys of their own are the messages of their domain. -/
theorem Keeps.all_of_nodup (hkeeps : Keeps store domain filed)
    (hnodup : (filed.map Filed.key).Nodup) :
    store.all domain = filed.map fun file => (file.key, messageId file.translation) := by
  rw [hkeeps.messages]
  apply Assoc.ofPairs_of_nodup
  rwa [Assoc.keys, List.map_map]

theorem standsFor_of_filed (hkeeps : Keeps store domain filed) (hfit : KeysFit reserved filed)
    (hnodup : (filed.map Filed.key).Nodup) {file : Filed} (hfile : file ∈ filed) :
    StandsFor store reserved domain (file.key, messageId file.translation) file.translation where
  target := rfl
  plain := hfit.plain file hfile
  marked := hfit.marked file hfile
  metadata := by
    rw [hkeeps.metadata, sharing_of_nodup hnodup hfile]
    rfl

theorem holds_of_filed (hkeeps : Keeps store domain filed) (hfit : KeysFit reserved filed)
    (hnodup : (filed.map Filed.key).Nodup) :
    Holds store reserved domain (filed.map Filed.translation) where
  messages := by
    rw [hkeeps.all_of_nodup hnodup, List.forall₂_map_left_iff, List.forall₂_map_right_iff,
      List.forall₂_same]
    exact fun _ hfile => standsFor_of_filed hkeeps hfit hnodup hfile
  unannotated := by
    intro key hkey
    have hnone : sharing key filed = [] := by
      apply sharing_eq_nil
      intro file hfile hsame
      exact hkey (hkeeps.mem_keys.mpr (hsame ▸ List.mem_map_of_mem hfile))
    rw [hkeeps.metadata, hnone]
    rfl

end Own

/-- An import leaves the messages of a domain standing for the entries of its catalogue, when the
identifiers of those without a context are different. -/
theorem holds_importAll (locale : String) (catalogues : Catalogues) {domain : String}
    (hnodup : (plainIds ((catalogues.get? domain).getD .empty)).Nodup) :
    Holds ((Store.empty locale).importAll catalogues)
      (plainIds ((catalogues.get? domain).getD .empty)) domain
      (Catalogue.translations ((catalogues.get? domain).getD .empty)) := by
  obtain ⟨filed, htranslations, hfit, hkeeps⟩ := exists_filed_importAll locale catalogues domain
  have hnodup' : (filed.map Filed.key).Nodup := by
    apply hfit.nodup_keys
    rw [htranslations]
    exact hnodup
  have hholds := holds_of_filed hkeeps hfit hnodup'
  rwa [htranslations] at hholds

end TemplateMessages.Catalogue.Store

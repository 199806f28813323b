import TemplateMessages.Proofs.ContextKeys

/-!
# The steps of an import

Every step of an import writes one key of one domain, and which key it takes
depends on what that domain holds.  So an import of many catalogues leaves in a
domain what the import of its own catalogue would.
-/

namespace TemplateMessages.Catalogue.Store

/-! ## One step -/

section Step

variable (store : Store) (reserved : List String) (domain : String) (translation : Translation)

theorem keyFor_of_none (hcontext : translation.key.context = none) :
    store.keyFor reserved domain translation = messageId translation := by
  rw [keyFor, hcontext]

/-- The key of an entry with a context is a marker before its identifier, and it is free. -/
theorem keyFor_of_some {context : String} (hcontext : translation.key.context = some context) :
    (∃ number, store.keyFor reserved domain translation =
      contextKey number (messageId translation)) ∧
    store.keyFor reserved domain translation ∉ reserved ∧
    store.keyFor reserved domain translation ∉ store.keys domain := by
  have hkey : store.keyFor reserved domain translation =
      freeContextKey (reserved ++ store.keys domain) (messageId translation) := by
    rw [keyFor, hcontext]
  obtain ⟨number, -, hnumber, -⟩ :=
    freeContextKey_spec (reserved ++ store.keys domain) (messageId translation)
  have hfree := freeContextKey_notMem (reserved ++ store.keys domain) (messageId translation)
  rw [List.mem_append, not_or] at hfree
  rw [hkey]
  exact ⟨⟨number, hnumber⟩, hfree⟩

/-- The metadata of a key once an entry is stored under it. -/
def recorded (metadata : Metadata) (translation : Translation) : Metadata :=
  ⟨metadata.comments ++ translation.details.comments, metadata.flags,
    metadata.sources ++ translation.details.references.toList.map Reference.text,
    translation.key.context⟩

theorem all_importTranslation :
    (importTranslation reserved domain store translation).all domain =
      Assoc.put (store.keyFor reserved domain translation) (messageId translation)
        (store.all domain) :=
  all_set_self store _ _ domain

theorem metadata?_importTranslation_self :
    (importTranslation reserved domain store translation).metadata?
        (store.keyFor reserved domain translation) domain =
      some (recorded ((store.metadata? (store.keyFor reserved domain translation) domain).getD
        .empty) translation) :=
  metadata?_annotate_self _ _ domain _

theorem metadata?_importTranslation_of_ne {key : String}
    (hkey : key ≠ store.keyFor reserved domain translation) :
    (importTranslation reserved domain store translation).metadata? key domain =
      store.metadata? key domain :=
  metadata?_annotate_of_ne _ hkey domain _

end Step

/-! ## Other domains -/

/-- Two stores hold the same for a domain. -/
structure Agree (domain : String) (left right : Store) : Prop where
  all : left.all domain = right.all domain
  metadata? : ∀ key, left.metadata? key domain = right.metadata? key domain

theorem Agree.refl (domain : String) (store : Store) : Agree domain store store :=
  ⟨rfl, fun _ => rfl⟩

theorem Agree.trans {domain : String} {first second third : Store}
    (h : Agree domain first second) (hnext : Agree domain second third) :
    Agree domain first third :=
  ⟨h.all.trans hnext.all, fun key => (h.metadata? key).trans (hnext.metadata? key)⟩

theorem agree_importTranslation {domain other : String} (h : other ≠ domain) (reserved : List String)
    (store : Store) (translation : Translation) :
    Agree other (importTranslation reserved domain store translation) store where
  all := all_set_of_ne store h _ _
  metadata? key := metadata?_annotate_of_ne_domain _ h _ key _

theorem agree_foldl {domain other : String} (h : other ≠ domain) (reserved : List String)
    (translations : List Translation) (store : Store) :
    Agree other (translations.foldl (importTranslation reserved domain) store) store := by
  induction translations generalizing store with
  | nil => exact .refl other store
  | cons translation rest ih => exact (ih _).trans (agree_importTranslation h reserved store translation)

/-- A step does the same to a domain in stores that agree on it. -/
theorem Agree.importTranslation {domain : String} {left right : Store}
    (h : Agree domain left right) (reserved : List String) (translation : Translation) :
    Agree domain (Store.importTranslation reserved domain left translation)
      (Store.importTranslation reserved domain right translation) := by
  have hkey : left.keyFor reserved domain translation = right.keyFor reserved domain translation := by
    rw [keyFor, keyFor, keys, keys, h.all]
  constructor
  · rw [all_importTranslation, all_importTranslation, hkey, h.all]
  · intro key
    by_cases hsame : key = right.keyFor reserved domain translation
    · have hleft := metadata?_importTranslation_self left reserved domain translation
      have hright := metadata?_importTranslation_self right reserved domain translation
      rw [hkey, h.metadata?] at hleft
      rw [hsame, hleft, hright]
    · rw [metadata?_importTranslation_of_ne right reserved domain translation hsame,
        metadata?_importTranslation_of_ne left reserved domain translation (hkey ▸ hsame),
        h.metadata?]

theorem Agree.importCatalogue {domain : String} {left right : Store} (h : Agree domain left right)
    (catalogue : Catalogue) :
    Agree domain (left.importCatalogue domain catalogue)
      (right.importCatalogue domain catalogue) := by
  apply List.foldl_rel h
  intro translation _ left right h
  exact h.importTranslation (plainIds catalogue) translation

/-! ## A whole import -/

theorem agree_foldl_importCatalogue {domain : String} {entries : List (String × Catalogue)}
    (hdomain : domain ∉ Assoc.keys entries) (store : Store) :
    Agree domain (entries.foldl (fun store entry => store.importCatalogue entry.1 entry.2) store)
      store := by
  induction entries generalizing store with
  | nil => exact .refl domain store
  | cons entry rest ih =>
      rw [Assoc.keys_cons, List.mem_cons, not_or] at hdomain
      exact (ih hdomain.2 _).trans (agree_foldl hdomain.1 _ _ store)

/-- Of many catalogues, a domain takes its own. -/
theorem agree_importCatalogue {domain : String} {entries : List (String × Catalogue)}
    (hdomains : (Assoc.keys entries).Nodup) (store : Store) :
    Agree domain (entries.foldl (fun store entry => store.importCatalogue entry.1 entry.2) store)
      (store.importCatalogue domain ((Assoc.get? domain entries).getD .empty)) := by
  induction entries generalizing store with
  | nil => exact .refl domain store
  | cons entry rest ih =>
      obtain ⟨name, catalogue⟩ := entry
      obtain ⟨hname, hrest⟩ := List.nodup_cons.mp hdomains
      by_cases hsame : name = domain
      · subst hsame
        rw [Assoc.get?, if_pos rfl]
        exact agree_foldl_importCatalogue hname _
      · rw [Assoc.get?, if_neg hsame]
        exact (ih hrest _).trans
          ((agree_foldl (Ne.symm hsame) (plainIds catalogue) catalogue.translations
            store).importCatalogue _)

theorem agree_importAll (store : Store) (domain : String) (catalogues : Catalogues) :
    Agree domain (store.importAll catalogues)
      (store.importCatalogue domain ((catalogues.get? domain).getD .empty)) :=
  agree_importCatalogue catalogues.nodup_domains store

theorem locale_importCatalogue (store : Store) (domain : String) (catalogue : Catalogue) :
    (store.importCatalogue domain catalogue).locale = store.locale := by
  refine List.foldlRecOn (motive := fun left : Store => left.locale = store.locale)
    catalogue.translations _ rfl ?_
  intro left hlocale translation _
  exact hlocale

theorem locale_importAll (store : Store) (catalogues : Catalogues) :
    (store.importAll catalogues).locale = store.locale := by
  refine List.foldlRecOn (motive := fun left : Store => left.locale = store.locale)
    catalogues.entries _ rfl ?_
  intro left hlocale entry _
  exact (locale_importCatalogue left entry.1 entry.2).trans hlocale

/-! ## Identifiers without a context -/

theorem mem_idsWithoutContext {translations : List Translation} {translation : Translation}
    (hmem : translation ∈ translations) (hcontext : translation.key.context = none) :
    messageId translation ∈ idsWithoutContext translations := by
  refine List.mem_map_of_mem (List.mem_filter.mpr ⟨hmem, ?_⟩)
  rw [hcontext, Option.isNone_none]

end TemplateMessages.Catalogue.Store

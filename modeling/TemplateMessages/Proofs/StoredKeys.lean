import Mathlib.Data.List.Pairwise
import TemplateMessages.Proofs.ImportSteps

/-!
# Keys of stored entries

An import gives every entry a key, one after the other, and what the store holds
can be told from the entries and their keys alone: a key has the identifier of
its entries as its target, and the notes of all of them in its metadata.  Entries
without a context may share a key, when they have one identifier.  An entry with
a context has a key of its own, behind a marker, whatever stands before it or
after it; so it is found again with all that it says and nothing else.
-/

namespace TemplateMessages.Catalogue.Store

/-- An entry and the key that it is stored under. -/
structure Filed where
  translation : Translation
  key : String

/-- The entries that are stored under a key, in the order in which they arrived. -/
def sharing (key : String) (filed : List Filed) : List Translation :=
  (filed.filter fun file => file.key = key).map Filed.translation

theorem mem_sharing_iff {key : String} {filed : List Filed} {translation : Translation} :
    translation ∈ sharing key filed ↔
      ∃ file ∈ filed, file.key = key ∧ file.translation = translation := by
  simp [sharing, and_assoc]

theorem sharing_eq_nil {key : String} {filed : List Filed} (h : ∀ file ∈ filed, file.key ≠ key) :
    sharing key filed = [] := by
  rw [sharing, List.map_eq_nil_iff, List.filter_eq_nil_iff]
  exact fun file hfile hkey => h file hfile (of_decide_eq_true hkey)

/-- The last entry of a key stands behind all others that share it. -/
theorem sharing_append_cons {before after : List Filed} {file : Filed}
    (hafter : ∀ other ∈ after, other.key ≠ file.key) :
    sharing file.key (before ++ file :: after) =
      sharing file.key before ++ [file.translation] := by
  have hbehind : sharing file.key (file :: after) = file.translation :: sharing file.key after := by
    simp [sharing]
  rw [sharing_eq_nil hafter] at hbehind
  rw [← hbehind, sharing, List.filter_append, List.map_append]
  rfl

/-- An entry with a key of its own. -/
theorem sharing_eq_singleton {before after : List Filed} {file : Filed}
    (hbefore : ∀ other ∈ before, other.key ≠ file.key)
    (hafter : ∀ other ∈ after, other.key ≠ file.key) :
    sharing file.key (before ++ file :: after) = [file.translation] := by
  rw [sharing_append_cons hafter, sharing_eq_nil hbefore, List.nil_append]

theorem sharing_of_nodup {filed : List Filed} (hnodup : (filed.map Filed.key).Nodup) {file : Filed}
    (hfile : file ∈ filed) : sharing file.key filed = [file.translation] := by
  obtain ⟨before, after, rfl⟩ := List.mem_iff_append.mp hfile
  rw [List.Nodup, List.pairwise_map, List.pairwise_append, List.pairwise_cons] at hnodup
  obtain ⟨-, ⟨hafter, -⟩, hbefore⟩ := hnodup
  exact sharing_eq_singleton (fun other hother => hbefore other hother file List.mem_cons_self)
    fun other hother => (hafter other hother).symm

/-- What is noted of entries that share a key. -/
def noted : List Translation → Option Metadata
  | [] => none
  | first :: rest => some (rest.foldl recorded (recorded .empty first))

theorem noted_concat (translations : List Translation) (translation : Translation) :
    noted (translations ++ [translation]) =
      some (recorded ((noted translations).getD .empty) translation) := by
  cases translations with
  | nil => rfl
  | cons first rest =>
      rw [List.cons_append, noted, List.foldl_concat]
      rfl

/-- The places of entries, in order. -/
def sources (translations : List Translation) : List String :=
  translations.flatMap fun translation =>
    translation.details.references.toList.map Reference.text

theorem sources_eq_map (translations : List Translation) :
    sources translations =
      (translations.flatMap fun translation => translation.details.references.toList).map
        Reference.text :=
  List.map_flatMap.symm

def comments (translations : List Translation) : List String :=
  translations.flatMap fun translation => translation.details.comments

theorem foldl_recorded {metadata : Metadata} {translations : List Translation}
    (hcontext : ∀ translation ∈ translations, translation.key.context = metadata.context) :
    translations.foldl recorded metadata =
      ⟨metadata.comments ++ comments translations, metadata.flags,
        metadata.sources ++ sources translations, metadata.context⟩ := by
  induction translations generalizing metadata with
  | nil => simp [comments, sources]
  | cons translation rest ih =>
      obtain ⟨hfirst, hrest⟩ := List.forall_mem_cons.mp hcontext
      rw [← hfirst] at hrest
      rw [List.foldl_cons, ih hrest]
      simp [recorded, comments, sources, hfirst]

/-- Entries of one context that share a key are noted one behind the other. -/
theorem noted_eq {translations : List Translation} {context : Option String}
    (hne : translations ≠ [])
    (hcontext : ∀ translation ∈ translations, translation.key.context = context) :
    noted translations = some ⟨comments translations, [], sources translations, context⟩ := by
  cases translations with
  | nil => exact absurd rfl hne
  | cons first rest =>
      obtain ⟨rfl, hrest⟩ := List.forall_mem_cons.mp hcontext
      rw [noted, foldl_recorded hrest]
      rfl

/-- What a domain of a store holds is what has been filed in it. -/
structure Keeps (store : Store) (domain : String) (filed : List Filed) : Prop where
  messages : store.all domain =
    Assoc.ofPairs (filed.map fun file => (file.key, messageId file.translation))
  metadata : ∀ key, store.metadata? key domain = noted (sharing key filed)

/-- Two entries without a context may share a key. -/
def PlainIfSame (first second : Filed) : Prop :=
  first.key = second.key →
    first.translation.key.context = none ∧ second.translation.key.context = none

instance : Std.Symm PlainIfSame where
  symm _ _ h hkey := (h hkey.symm).symm

/-- How keys are given, next to reserved ones: an entry without a context has its identifier as its
key, and one with a context has a marked key that neither is reserved nor belongs to another. -/
structure KeysFit (reserved : List String) (filed : List Filed) : Prop where
  plain : ∀ file ∈ filed, file.translation.key.context = none →
    file.key = messageId file.translation
  marked : ∀ file ∈ filed, file.translation.key.context.isSome →
    file.key ∉ reserved ∧ ∃ number, file.key = contextKey number (messageId file.translation)
  apart : filed.Pairwise PlainIfSame

theorem keysFit_nil (reserved : List String) : KeysFit reserved [] :=
  ⟨by simp, by simp, .nil⟩

/-! ## One more entry -/

section Step

variable {store : Store} {reserved : List String} {domain : String} {filed : List Filed}

theorem keeps_empty (locale domain : String) : Keeps (.empty locale) domain [] :=
  ⟨rfl, fun _ => rfl⟩

theorem Keeps.mem_keys (h : Keeps store domain filed) {key : String} :
    key ∈ store.keys domain ↔ key ∈ filed.map Filed.key := by
  rw [keys, h.messages, Assoc.ofPairs, Assoc.mem_keys_putAll]
  simp [Assoc.keys]

theorem Keeps.importTranslation (h : Keeps store domain filed) (reserved : List String)
    (translation : Translation) :
    Keeps (Store.importTranslation reserved domain store translation) domain
      (filed ++ [⟨translation, store.keyFor reserved domain translation⟩]) where
  messages := by
    rw [all_importTranslation, h.messages, List.map_append, List.map_singleton,
      Assoc.ofPairs_concat]
  metadata := by
    intro key
    by_cases hkey : key = store.keyFor reserved domain translation
    · have hsharing : sharing key
          (filed ++ [⟨translation, store.keyFor reserved domain translation⟩]) =
          sharing key filed ++ [translation] := by
        simp [sharing, hkey]
      rw [hsharing, noted_concat, ← h.metadata, hkey, metadata?_importTranslation_self]
    · have hsharing : sharing key
          (filed ++ [⟨translation, store.keyFor reserved domain translation⟩]) =
          sharing key filed := by
        simp [sharing, Ne.symm hkey]
      rw [hsharing, ← h.metadata, metadata?_importTranslation_of_ne _ _ _ _ hkey]

/-- An entry that is filed in a store takes a key that fits those of the entries that are there. -/
theorem KeysFit.importTranslation (hfit : KeysFit reserved filed)
    (hpresent : ∀ file ∈ filed, file.key ∈ store.keys domain) {translation : Translation}
    (hreserved : translation.key.context = none → messageId translation ∈ reserved) :
    KeysFit reserved (filed ++ [⟨translation, store.keyFor reserved domain translation⟩]) where
  plain := by
    intro file hfile hcontext
    rcases List.mem_append.mp hfile with hfile | hfile
    · exact hfit.plain file hfile hcontext
    · obtain rfl := List.mem_singleton.mp hfile
      exact keyFor_of_none store reserved domain translation hcontext
  marked := by
    intro file hfile hsome
    rcases List.mem_append.mp hfile with hfile | hfile
    · exact hfit.marked file hfile hsome
    · obtain rfl := List.mem_singleton.mp hfile
      obtain ⟨context, hcontext⟩ := Option.isSome_iff_exists.mp hsome
      obtain ⟨hnumber, hfree, -⟩ := keyFor_of_some store reserved domain translation hcontext
      exact ⟨hfree, hnumber⟩
  apart := by
    refine List.pairwise_append.mpr ⟨hfit.apart, List.pairwise_singleton _ _, ?_⟩
    intro earlier hearlier later hlater hsame
    obtain rfl := List.mem_singleton.mp hlater
    have hkey : earlier.key = store.keyFor reserved domain translation := hsame
    cases hcontext : translation.key.context with
    | some context =>
        -- The new key is marked, and the search passed over every key that is there.
        obtain ⟨-, -, hfree⟩ := keyFor_of_some store reserved domain translation hcontext
        exact absurd (hkey ▸ hpresent earlier hearlier) hfree
    | none =>
        -- The new key is reserved, so no entry with a context has it.
        refine ⟨Option.not_isSome_iff_eq_none.mp fun hsome => ?_, rfl⟩
        rw [keyFor_of_none store reserved domain translation hcontext] at hkey
        exact (hfit.marked earlier hearlier hsome).1 (hkey ▸ hreserved hcontext)

end Step

/-! ## A whole import -/

/-- An entry with a context has none of the keys that were there before it. -/
def NewKeys (present : List Filed) (filed : List Filed) : Prop :=
  ∀ file ∈ filed, file.translation.key.context.isSome → ∀ other ∈ present, other.key ≠ file.key

/-- Entries that arrive one after the other are filed behind what is there. -/
theorem exists_filed_foldl {store : Store} {reserved : List String} {domain : String}
    {present filed : List Filed} (hfit : KeysFit reserved filed) (hnew : NewKeys present filed)
    (hkeeps : Keeps store domain (present ++ filed)) {translations : List Translation}
    (hreserved : ∀ translation ∈ translations, translation.key.context = none →
      messageId translation ∈ reserved) :
    ∃ more, more.map Filed.translation = translations ∧ KeysFit reserved (filed ++ more) ∧
      NewKeys present (filed ++ more) ∧
      Keeps (translations.foldl (importTranslation reserved domain) store) domain
        (present ++ (filed ++ more)) := by
  induction translations generalizing store filed with
  | nil => exact ⟨[], rfl, by rwa [List.append_nil], by rwa [List.append_nil], by rwa [List.append_nil]⟩
  | cons translation rest ih =>
      obtain ⟨hfirst, hrest⟩ := List.forall_mem_cons.mp hreserved
      have hpresent : ∀ file ∈ present ++ filed, file.key ∈ store.keys domain :=
        fun file hfile => hkeeps.mem_keys.mpr (List.mem_map_of_mem hfile)
      have hfit' := hfit.importTranslation
        (fun file hfile => hpresent file (List.mem_append_right _ hfile)) hfirst
      have hnew' : NewKeys present
          (filed ++ [⟨translation, store.keyFor reserved domain translation⟩]) := by
        intro file hfile hsome other hother hkey
        rcases List.mem_append.mp hfile with hfile | hfile
        · exact hnew file hfile hsome other hother hkey
        · obtain rfl := List.mem_singleton.mp hfile
          obtain ⟨context, hcontext⟩ := Option.isSome_iff_exists.mp hsome
          obtain ⟨-, -, hfree⟩ := keyFor_of_some store reserved domain translation hcontext
          apply hfree
          rw [← show other.key = store.keyFor reserved domain translation from hkey]
          exact hpresent other (List.mem_append_left _ hother)
      have hkeeps' := hkeeps.importTranslation reserved translation
      rw [List.append_assoc] at hkeeps'
      obtain ⟨more, hmore, hall⟩ := ih hfit' hnew' hkeeps' hrest
      rw [List.append_assoc] at hall
      exact ⟨⟨translation, store.keyFor reserved domain translation⟩ :: more,
        congrArg (List.cons translation) hmore, hall⟩

theorem Keeps.of_agree {left right : Store} {domain : String} {filed : List Filed}
    (h : Keeps right domain filed) (hagree : Agree domain left right) : Keeps left domain filed where
  messages := hagree.all.trans h.messages
  metadata key := (hagree.metadata? key).trans (h.metadata key)

/-- An import files every entry of a domain, in order, behind what is there. -/
theorem exists_filed_importAll_onto {store : Store} {domain : String} {present : List Filed}
    (hkeeps : Keeps store domain present) (catalogues : Catalogues) :
    ∃ filed, filed.map Filed.translation = catalogues.translationsIn domain ∧
      KeysFit (idsWithoutContext (catalogues.translationsIn domain)) filed ∧
      NewKeys present filed ∧ Keeps (store.importAll catalogues) domain (present ++ filed) := by
  rw [← List.append_nil present] at hkeeps
  obtain ⟨filed, htranslations, hfit, hnew, hkeeps'⟩ :=
    exists_filed_foldl (keysFit_nil (idsWithoutContext (catalogues.translationsIn domain)))
      (fun _ hfile => absurd hfile List.not_mem_nil) hkeeps
      fun _ hmem hcontext => mem_idsWithoutContext hmem hcontext
  exact ⟨filed, htranslations, hfit, hnew,
    hkeeps'.of_agree (agree_importAll store domain catalogues)⟩

/-- An import into an empty store files the entries of a domain, and there is nothing else. -/
theorem exists_filed_importAll (locale : String) (catalogues : Catalogues) (domain : String) :
    ∃ filed, filed.map Filed.translation = catalogues.translationsIn domain ∧
      KeysFit (idsWithoutContext (catalogues.translationsIn domain)) filed ∧
      Keeps ((Store.empty locale).importAll catalogues) domain filed := by
  obtain ⟨filed, htranslations, hfit, -, hkeeps⟩ :=
    exists_filed_importAll_onto (keeps_empty locale domain) catalogues
  exact ⟨filed, htranslations, hfit, hkeeps⟩

/-! ## Keys that fit -/

namespace KeysFit

variable {reserved : List String} {filed : List Filed}

/-- Two entries of one key have no context, unless they are one. -/
theorem eq_or_plain (hfit : KeysFit reserved filed) {file other : Filed} (hfile : file ∈ filed)
    (hother : other ∈ filed) (hkey : file.key = other.key) :
    file = other ∨
      file.translation.key.context = none ∧ other.translation.key.context = none := by
  by_cases heq : file = other
  · exact .inl heq
  · exact .inr (hfit.apart.forall hfile hother heq hkey)

/-- Entries of one key have one identifier. -/
theorem messageId_eq (hfit : KeysFit reserved filed) {file other : Filed} (hfile : file ∈ filed)
    (hother : other ∈ filed) (hkey : file.key = other.key) :
    messageId file.translation = messageId other.translation := by
  rcases hfit.eq_or_plain hfile hother hkey with rfl | ⟨hone, htwo⟩
  · rfl
  · rw [← hfit.plain file hfile hone, ← hfit.plain other hother htwo, hkey]

/-- An entry with a context shares its key with no other. -/
theorem sharing_of_isSome (hfit : KeysFit reserved filed) {file : Filed} (hfile : file ∈ filed)
    (hsome : file.translation.key.context.isSome) :
    sharing file.key filed = [file.translation] := by
  have hne : file.translation.key.context ≠ none := Option.isSome_iff_ne_none.mp hsome
  obtain ⟨before, after, rfl⟩ := List.mem_iff_append.mp hfile
  obtain ⟨-, hafter, hbefore⟩ := List.pairwise_append.mp hfit.apart
  apply sharing_eq_singleton
  · intro other hother hkey
    exact hne (hbefore other hother file List.mem_cons_self hkey).2
  · intro other hother hkey
    exact hne ((List.pairwise_cons.mp hafter).1 other hother hkey.symm).1

/-- While no identifier without a context comes twice, every entry has a key of its own. -/
theorem nodup_keys (hfit : KeysFit reserved filed)
    (hnodup : (idsWithoutContext (filed.map Filed.translation)).Nodup) :
    (filed.map Filed.key).Nodup := by
  rw [idsWithoutContext, List.filter_map, List.map_map, List.Nodup, List.pairwise_map,
    List.pairwise_filter] at hnodup
  rw [List.Nodup, List.pairwise_map]
  refine (hfit.apart.and hnodup).imp_of_mem ?_
  rintro file other hfile hother ⟨hplain, hids⟩ hkey
  obtain ⟨hone, htwo⟩ := hplain hkey
  exact hids (Option.isNone_iff_eq_none.mpr hone) (Option.isNone_iff_eq_none.mpr htwo)
    (hfit.messageId_eq hfile hother hkey)

/-- The context of an entry is that of all that share its key. -/
theorem context_of_mem_sharing (hfit : KeysFit reserved filed) {file : Filed} (hfile : file ∈ filed)
    {translation : Translation} (hmem : translation ∈ sharing file.key filed) :
    translation.key.context = file.translation.key.context := by
  obtain ⟨other, hother, hkey, rfl⟩ := mem_sharing_iff.mp hmem
  rcases hfit.eq_or_plain hother hfile hkey with rfl | ⟨hone, htwo⟩
  · rfl
  · rw [hone, htwo]

/-- Taking the context off the key of an entry leaves its identifier. -/
theorem dropContext_eq (hfit : KeysFit reserved filed) {file : Filed} (hfile : file ∈ filed)
    {metadata : Metadata} (hcontext : metadata.context = file.translation.key.context) :
    dropContext (some metadata) file.key = messageId file.translation := by
  apply dropContext_eq_of_marked <;> rw [hcontext]
  · exact hfit.plain file hfile
  · exact fun hsome => (hfit.marked file hfile hsome).2

end KeysFit

/-! ## What is found under a key -/

section Found

variable {store : Store} {reserved : List String} {domain : String} {filed : List Filed}
  (hkeeps : Keeps store domain filed) (hfit : KeysFit reserved filed)
  {file : Filed} (hfile : file ∈ filed)

include hkeeps hfit hfile

/-- The target of a key is the identifier of its entry. -/
theorem Keeps.get?_all :
    Assoc.get? file.key (store.all domain) = some (messageId file.translation) := by
  rw [hkeeps.messages]
  apply Assoc.get?_putAll
  · intro entry hentry hkey
    obtain ⟨other, hother, rfl⟩ := List.mem_map.mp hentry
    exact hfit.messageId_eq hother hfile hkey
  · left
    rw [Assoc.keys, List.map_map]
    exact List.mem_map_of_mem hfile

/-- The metadata of a key notes all entries that share it. -/
theorem Keeps.metadata?_eq :
    store.metadata? file.key domain =
      some ⟨comments (sharing file.key filed), [], sources (sharing file.key filed),
        file.translation.key.context⟩ := by
  have hmem : file.translation ∈ sharing file.key filed :=
    mem_sharing_iff.mpr ⟨file, hfile, rfl, rfl⟩
  rw [hkeeps.metadata]
  exact noted_eq (List.ne_nil_of_mem hmem) fun _ => hfit.context_of_mem_sharing hfile

end Found

/-! ## Entries with a context -/

/-- An entry that is filed among others is kept apart from them, with all that it says: each of its
references is noted as a path and a line with a colon between them. -/
structure KeptApart (store : Store) (domain : String) (filed : List Filed) (file : Filed) :
    Prop where
  marked : ∃ number, file.key = contextKey number (messageId file.translation)
  ne_plain : ∀ other ∈ filed, other.translation.key.context = none →
    file.key ≠ messageId other.translation
  ne_marked : ∀ other ∈ filed, other.translation.key.context.isSome →
    other.translation.key ≠ file.translation.key → file.key ≠ other.key
  target : Assoc.get? file.key (store.all domain) = some (messageId file.translation)
  metadata : store.metadata? file.key domain =
    some ⟨file.translation.details.comments, [],
      file.translation.details.references.toList.map fun reference =>
        reference.path ++ ":" ++ toString reference.line,
      file.translation.key.context⟩
  dropped : store.view.decontextualise file.key domain = .ok (messageId file.translation)

/-- Whatever a domain holds, every entry with a context is kept apart from all others, wherever
they stand. -/
theorem keptApart_importAll (locale : String) (catalogues : Catalogues) (domain : String) :
    ∃ filed : List Filed, filed.map Filed.translation = catalogues.translationsIn domain ∧
      ∀ file ∈ filed, file.translation.key.context.isSome →
        KeptApart ((Store.empty locale).importAll catalogues) domain filed file := by
  obtain ⟨filed, htranslations, hfit, hkeeps⟩ := exists_filed_importAll locale catalogues domain
  refine ⟨filed, htranslations, ?_⟩
  intro file hfile hsome
  obtain ⟨hreserved, hnumber⟩ := hfit.marked file hfile hsome
  have hmetadata := hkeeps.metadata?_eq hfit hfile
  rw [hfit.sharing_of_isSome hfile hsome, comments, sources, List.flatMap_singleton,
    List.flatMap_singleton] at hmetadata
  constructor
  · exact hnumber
  · intro other hother hplain hkey
    apply hreserved
    rw [hkey, ← htranslations]
    exact mem_idsWithoutContext (List.mem_map_of_mem hother) hplain
  · intro other hother _ hne hkey
    rcases hfit.eq_or_plain hfile hother hkey with rfl | ⟨hnone, -⟩
    · exact hne rfl
    · rw [hnone] at hsome
      exact absurd hsome Bool.false_ne_true
  · exact hkeeps.get?_all hfit hfile
  · exact hmetadata
  · have hdrop : dropContext (some ⟨file.translation.details.comments, [],
        file.translation.details.references.toList.map Reference.text,
        file.translation.key.context⟩) file.key = messageId file.translation :=
      hfit.dropContext_eq hfile rfl
    rw [← hdrop, ← hmetadata]
    rfl

/-- A text in two contexts, and between them one that looks like its key. -/
def menuEntries : List Translation :=
  [⟨⟨some "menu", "Open"⟩, ⟨none, ["File menu"], .ofList [⟨"a.twig", 1⟩]⟩⟩,
    ⟨⟨none, "HAS_CONTEXT0::Open"⟩, ⟨none, [], .ofList [⟨"b.twig", 2⟩]⟩⟩,
    ⟨⟨some "", "Open"⟩, ⟨none, ["No menu"], .ofList [⟨"c.twig", 3⟩, ⟨"c.twig", 8⟩]⟩⟩]

def menuCatalogues : Catalogues :=
  menuEntries.foldl (fun catalogues translation => catalogues.add "menu" translation) .empty

/-- Both entries with a context are kept apart, also the one with an empty context. -/
theorem keptApart_importAll_menu :
    menuCatalogues.translationsIn "menu" = menuEntries ∧
    ((Store.empty "en").importAll menuCatalogues).keys "menu" =
      ["HAS_CONTEXT1::Open", "HAS_CONTEXT0::Open", "HAS_CONTEXT2::Open"] ∧
    ((Store.empty "en").importAll menuCatalogues).metadata? "HAS_CONTEXT1::Open" "menu" =
      some ⟨["File menu"], [], ["a.twig:1"], some "menu"⟩ ∧
    ((Store.empty "en").importAll menuCatalogues).metadata? "HAS_CONTEXT2::Open" "menu" =
      some ⟨["No menu"], [], ["c.twig:3", "c.twig:8"], some ""⟩ ∧
    ∃ filed : List Filed, filed.map Filed.translation = menuEntries ∧
      ∀ translation ∈ menuEntries, translation.key.context.isSome →
        ∃ file ∈ filed, file.translation = translation ∧
          KeptApart ((Store.empty "en").importAll menuCatalogues) "menu" filed file := by
  have hentries : menuCatalogues.translationsIn "menu" = menuEntries := rfl
  refine ⟨hentries, by decide, by decide, by decide, ?_⟩
  obtain ⟨filed, htranslations, happart⟩ := keptApart_importAll "en" menuCatalogues "menu"
  rw [hentries] at htranslations
  refine ⟨filed, htranslations, ?_⟩
  intro translation hmem hsome
  rw [← htranslations] at hmem
  obtain ⟨file, hfile, rfl⟩ := List.mem_map.mp hmem
  exact ⟨file, hfile, rfl, happart file hfile hsome⟩

end TemplateMessages.Catalogue.Store

import Mathlib.Data.List.Dedup
import TemplateMessages.Proofs.JoinedRules
import TemplateMessages.Proofs.StoredKeys

/-!
# Entries that share a key

A store has a key for every entry with a context, and one for every identifier
of the others.  Entries without a context share a key when the identifier of a
text is that of a text and its plural: a text may itself be written like two
rules, and the pipes around the joint of two rules do not tell on which side they
stand.  All entries of a domain have keys of their own exactly when no two of
them clash in this way.
-/

namespace TemplateMessages.Catalogue.Store

/-- The texts of two entries make one identifier. -/
def Alike (first second : Translation) : Prop :=
  match first.details.plural, second.details.plural with
  | none, none => first.key.original = second.key.original
  | none, some plural => first.key.original = Plural.join second.key.original plural
  | some plural, none => Plural.join first.key.original plural = second.key.original
  | some plural, some other =>
      Plural.PipesMoved first.key.original.toList plural.toList
          second.key.original.toList other.toList ∨
        Plural.PipesMoved second.key.original.toList other.toList
          first.key.original.toList plural.toList

theorem messageId_eq_iff {first second : Translation} :
    messageId first = messageId second ↔ Alike first second := by
  unfold Alike
  split <;> rename_i hone htwo
  · rw [messageId_of_none hone, messageId_of_none htwo]
  · rw [messageId_of_none hone, messageId_of_some htwo]
  · rw [messageId_of_some hone, messageId_of_none htwo]
  · rw [messageId_of_some hone, messageId_of_some htwo, Plural.join_eq_join_iff]

/-- Two entries without a context that share a key. -/
def Clash (first second : Translation) : Prop :=
  first.key.context = none ∧ second.key.context = none ∧ Alike first second

/-! ## Counting keys -/

theorem nodup_keys (store : Store) (domain : String) : (store.keys domain).Nodup :=
  ((store.messages.get? domain).getD .empty).nodup

theorem nodup_markedKeys {reserved : List String} {filed : List Filed}
    (hfit : KeysFit reserved filed) :
    ((filed.filter fun file => file.translation.key.context.isSome).map Filed.key).Nodup := by
  rw [List.Nodup, List.pairwise_map, List.pairwise_filter]
  apply hfit.apart.imp
  intro earlier later hapart hsome _ hkey
  rw [(hapart hkey).1] at hsome
  exact Bool.false_ne_true hsome

/-- The keys of a domain are the marked ones and the identifiers of the entries without a
context. -/
theorem keys_perm {store : Store} {domain : String} {filed : List Filed}
    (hkeeps : Keeps store domain filed)
    (hfit : KeysFit (idsWithoutContext (filed.map Filed.translation)) filed) :
    (store.keys domain).Perm
      ((filed.filter fun file => file.translation.key.context.isSome).map Filed.key ++
        (idsWithoutContext (filed.map Filed.translation)).dedup) := by
  have hdisjoint : ((filed.filter fun file => file.translation.key.context.isSome).map Filed.key ++
      (idsWithoutContext (filed.map Filed.translation)).dedup).Nodup := by
    refine List.nodup_append.mpr ⟨nodup_markedKeys hfit, List.nodup_dedup _, ?_⟩
    rintro _ hmarked id hid rfl
    obtain ⟨file, hfile, hkey⟩ := List.mem_map.mp hmarked
    obtain ⟨hfile, hsome⟩ := List.mem_filter.mp hfile
    exact (hfit.marked file hfile hsome).1 (hkey ▸ List.mem_dedup.mp hid)
  refine (List.perm_ext_iff_of_nodup (nodup_keys store domain) hdisjoint).mpr fun key => ?_
  rw [hkeeps.mem_keys, List.mem_append, List.mem_dedup]
  constructor
  · intro hkey
    obtain ⟨file, hfile, rfl⟩ := List.mem_map.mp hkey
    cases hcontext : file.translation.key.context with
    | some context =>
        refine .inl (List.mem_map_of_mem (List.mem_filter.mpr ⟨hfile, ?_⟩))
        rw [hcontext, Option.isSome_some]
    | none =>
        rw [hfit.plain file hfile hcontext]
        exact .inr (mem_idsWithoutContext (List.mem_map_of_mem hfile) hcontext)
  · rintro (hmarked | hid)
    · obtain ⟨file, hfile, rfl⟩ := List.mem_map.mp hmarked
      exact List.mem_map_of_mem (List.mem_filter.mp hfile).1
    · obtain ⟨translation, hmem, rfl⟩ := List.mem_map.mp hid
      obtain ⟨hmem, hnone⟩ := List.mem_filter.mp hmem
      obtain ⟨file, hfile, rfl⟩ := List.mem_map.mp hmem
      rw [← hfit.plain file hfile (Option.isNone_iff_eq_none.mp hnone)]
      exact List.mem_map_of_mem hfile

theorem nodup_idsWithoutContext_iff (translations : List Translation) :
    (idsWithoutContext translations).Nodup ↔
      translations.Pairwise fun first second => ¬ Clash first second := by
  rw [idsWithoutContext, List.Nodup, List.pairwise_map, List.pairwise_filter]
  apply List.Pairwise.iff
  intro first second
  rw [Clash, ← messageId_eq_iff, Option.isNone_iff_eq_none, Option.isNone_iff_eq_none]
  tauto

theorem length_idsWithoutContext (translations : List Translation) :
    translations.length =
      translations.countP (fun translation => translation.key.context.isSome) +
        (idsWithoutContext translations).length := by
  rw [idsWithoutContext, List.length_map, ← List.countP_eq_length_filter,
    List.length_eq_countP_add_countP fun translation : Translation => translation.key.context.isSome]
  congr 2
  funext translation
  cases translation.key.context <;> rfl

/-- An import leaves one key for every entry with a context and one for every identifier of the
others; so it leaves one for every entry exactly when no two entries clash. -/
theorem length_keys_importAll (locale : String) (catalogues : Catalogues) (domain : String) :
    (((Store.empty locale).importAll catalogues).keys domain).length =
      (catalogues.translationsIn domain).countP
          (fun translation => translation.key.context.isSome) +
        (idsWithoutContext (catalogues.translationsIn domain)).dedup.length ∧
    ((((Store.empty locale).importAll catalogues).keys domain).length =
        (catalogues.translationsIn domain).length ↔
      (catalogues.translationsIn domain).Pairwise fun first second => ¬ Clash first second) := by
  obtain ⟨filed, htranslations, hfit, hkeeps⟩ := exists_filed_importAll locale catalogues domain
  rw [← htranslations] at hfit ⊢
  have hcount : (((Store.empty locale).importAll catalogues).keys domain).length =
      (filed.map Filed.translation).countP (fun translation => translation.key.context.isSome) +
        (idsWithoutContext (filed.map Filed.translation)).dedup.length := by
    rw [(keys_perm hkeeps hfit).length_eq, List.length_append, List.length_map, List.countP_map,
      List.countP_eq_length_filter]
    rfl
  refine ⟨hcount, ?_⟩
  rw [hcount, length_idsWithoutContext (filed.map Filed.translation), Nat.add_left_cancel_iff,
    (List.dedup_sublist _).length_eq, List.dedup_eq_self, nodup_idsWithoutContext_iff]

/-- A text with a pipe, behind a text and a plural that are joined to it. -/
def pipes : Catalogues :=
  (Catalogues.add .empty "messages"
      ⟨⟨none, "a"⟩, ⟨some "b", ["one"], .ofList [⟨"a.twig", 1⟩]⟩⟩).add "messages"
    ⟨⟨none, "a|b"⟩, ⟨none, ["two"], .ofList [⟨"a.twig", 2⟩]⟩⟩

/-- Two entries, and one key with the notes of both. -/
theorem keys_importAll_pipes :
    (pipes.translationsIn "messages").length = 2 ∧
    ((Store.empty "en").importAll pipes).keys "messages" = ["a|b"] ∧
    ((Store.empty "en").importAll pipes).metadata? "a|b" "messages" =
      some ⟨["one", "two"], [], ["a.twig:1", "a.twig:2"], none⟩ := by
  decide

end TemplateMessages.Catalogue.Store

import Mathlib.Data.List.Sort
import TemplateMessages.Extraction.Collection

/-!
# Merging catalogues

Merging adds the entries of one catalogue to another, and adding a message to an
entry that is there is the same joining again.  A map is told by its keys and by
the value of each, so both are followed key by key: what a merge holds for a key
is what the right side holds joined to what the left side holds.  From this it
follows that an entry may be added before a merge or after it.
-/

namespace TemplateMessages

/-! ## Maps by their values -/

/-- What a map holds for a key once entries of different keys have joined it one after the other. -/
theorem lookup_foldl {μ κ α β : Type} [DecidableEq κ] (lookup : μ → κ → Option α)
    {step : μ → κ × β → μ} {join : β → Option α → α}
    (hself : ∀ map entry, lookup (step map entry) entry.1 = some (join entry.2 (lookup map entry.1)))
    (hother : ∀ map entry key, key ≠ entry.1 → lookup (step map entry) key = lookup map key)
    {entries : List (κ × β)} (hnodup : (Assoc.keys entries).Nodup) (map : μ) (key : κ) :
    lookup (entries.foldl step map) key =
      ((Assoc.get? key entries).map fun added => join added (lookup map key)).or
        (lookup map key) := by
  induction entries generalizing map with
  | nil => rfl
  | cons entry rest ih =>
      obtain ⟨hnew, hrest⟩ := List.nodup_cons.mp hnodup
      rw [List.foldl_cons, ih hrest]
      by_cases hkey : key = entry.1
      · subst hkey
        rw [Assoc.get?_eq_none_iff.mpr hnew, Assoc.get?, if_pos rfl, hself]
        rfl
      · rw [hother map entry key hkey, Assoc.get?, if_neg (Ne.symm hkey)]

namespace DomainMap

variable {α : Type}

theorem mem_domains_iff (map : DomainMap α) (domain : String) :
    domain ∈ map.domains ↔ map.get? domain ≠ none := by
  rw [Ne, get?, Assoc.get?_eq_none_iff, not_not]
  rfl

theorem mem_domains_alter (map : DomainMap α) (domain name : String) (change : Option α → α) :
    name ∈ (map.alter domain change).domains ↔ name = domain ∨ name ∈ map.domains := by
  rw [mem_domains_iff, mem_domains_iff]
  by_cases hname : name = domain
  · subst hname
    simp
  · simp [hname, get?_alter_of_ne _ hname]

/-- The order of the domains is given, so a map is told by the values of its domains. -/
theorem ext_get? {left right : DomainMap α}
    (hget : ∀ domain, left.get? domain = right.get? domain) : left = right := by
  have hdomains : left.domains = right.domains := by
    apply left.sorted.eq_of_mem_iff right.sorted
    intro domain
    calc
      domain ∈ left.domains ↔ left.get? domain ≠ none := mem_domains_iff left domain
      _ ↔ right.get? domain ≠ none := by rw [hget]
      _ ↔ domain ∈ right.domains := (mem_domains_iff right domain).symm
  exact ext_entries (Assoc.ext_get? hdomains left.nodup_domains hget)

end DomainMap

namespace Catalogue

/-! ## References and details -/

namespace References

theorem insert_of_mem {references : References} {reference : Reference}
    (hmem : reference ∈ references.toList) : references.insert reference = references := by
  apply ext_toList
  rw [toList_insert, if_pos hmem]

theorem mem_insert {references : References} {reference other : Reference} :
    other ∈ (references.insert reference).toList ↔
      other ∈ references.toList ∨ other = reference := by
  rw [toList_insert, Assoc.mem_ite_concat]

theorem mem_insertAll {references : References} {others : List Reference} {other : Reference} :
    other ∈ (references.insertAll others).toList ↔ other ∈ references.toList ∨ other ∈ others := by
  induction others generalizing references with
  | nil => simp [insertAll]
  | cons reference rest ih =>
      have hrest : other ∈ ((references.insert reference).insertAll rest).toList ↔ _ := ih
      rw [mem_insert, or_assoc] at hrest
      rw [List.mem_cons]
      exact hrest

/-- A reference may be inserted before all are inserted elsewhere, or after. -/
theorem insertAll_insert (first second : References) (reference : Reference) :
    first.insertAll (second.insert reference).toList =
      (first.insertAll second.toList).insert reference := by
  by_cases hmem : reference ∈ second.toList
  · rw [insert_of_mem hmem, insert_of_mem (mem_insertAll.mpr (.inr hmem))]
  · rw [toList_insert, if_neg hmem]
    exact List.foldl_concat insert first reference second.toList

theorem insertAll_insertAll (first second : References) (others : List Reference) :
    first.insertAll (second.insertAll others).toList =
      (first.insertAll second.toList).insertAll others :=
  (List.foldl_hom (fun references => first.insertAll references.toList)
    fun references reference => (insertAll_insert first references reference).symm).symm

end References

theorem Details.merge_assoc (first second third : Details) :
    (first.merge second).merge third = first.merge (second.merge third) := by
  simp only [Details.merge, Option.or_assoc, List.append_assoc, References.insertAll_insertAll]

/-- Two details join what is there one after the other, or both together. -/
theorem Details.join_merge (first second : Details) (present : Option Details) :
    (first.merge second).join present = second.join (some (first.join present)) := by
  cases present with
  | none => rfl
  | some details => exact (Details.merge_assoc details first second).symm

/-! ## One domain -/

theorem get?_add_self (catalogue : Catalogue) (translation : Translation) :
    (catalogue.add translation).get? translation.key =
      some (translation.details.join (catalogue.get? translation.key)) :=
  catalogue.get?_put_self _ _

theorem get?_add_of_ne (catalogue : Catalogue) (translation : Translation) {key : TranslationKey}
    (hkey : key ≠ translation.key) : (catalogue.add translation).get? key = catalogue.get? key :=
  catalogue.get?_put_of_ne hkey _

theorem keys_add (catalogue : Catalogue) (translation : Translation) :
    (catalogue.add translation).keys =
      if translation.key ∈ catalogue.keys then catalogue.keys
      else catalogue.keys ++ [translation.key] :=
  catalogue.keys_put _ _

theorem merge_eq_foldl (catalogue other : Catalogue) :
    catalogue.merge other =
      other.entries.foldl (fun merged entry => merged.add ⟨entry.1, entry.2⟩) catalogue := by
  rw [merge, translations, List.foldl_map]

/-- A merge holds for a key what the right side holds, joined to what the left side holds. -/
theorem get?_merge (catalogue other : Catalogue) (key : TranslationKey) :
    (catalogue.merge other).get? key =
      ((other.get? key).map fun added => added.join (catalogue.get? key)).or
        (catalogue.get? key) := by
  rw [merge_eq_foldl]
  exact lookup_foldl OrderedMap.get?
    (fun map entry => get?_add_self map ⟨entry.1, entry.2⟩)
    (fun map entry _ hkey => get?_add_of_ne map ⟨entry.1, entry.2⟩ hkey) other.nodup catalogue key

/-- The keys of a merge: those of the left side, and behind them the new ones of the right side. -/
theorem keys_merge (catalogue other : Catalogue) :
    (catalogue.merge other).keys =
      catalogue.keys ++ other.keys.filter fun key => key ∉ catalogue.keys := by
  have hfold : ∀ entries : List (TranslationKey × Details), (Assoc.keys entries).Nodup →
      ∀ catalogue : Catalogue,
      (entries.foldl (fun merged entry => merged.add ⟨entry.1, entry.2⟩) catalogue).keys =
        catalogue.keys ++ (Assoc.keys entries).filter fun key => key ∉ catalogue.keys := by
    intro entries hnodup
    induction entries with
    | nil => simp
    | cons entry rest ih =>
        intro catalogue
        obtain ⟨hnew, hrest⟩ := List.nodup_cons.mp hnodup
        rw [List.foldl_cons, ih hrest, keys_add, Assoc.keys_cons]
        by_cases hmem : entry.1 ∈ catalogue.keys
        · rw [if_pos hmem, List.filter_cons_of_neg (by simpa using hmem)]
        · -- A key that has just been added does not come again, so nothing else is left out.
          have hsame : (Assoc.keys rest).filter (fun key => key ∉ catalogue.keys ++ [entry.1]) =
              (Assoc.keys rest).filter fun key => key ∉ catalogue.keys := by
            apply List.filter_congr
            intro key hkey
            have hne : key ≠ entry.1 := fun heq => hnew (heq ▸ hkey)
            simp [hne]
          rw [if_neg hmem, List.filter_cons_of_pos (by simpa using hmem), hsame,
            List.append_assoc, List.singleton_append]
  rw [merge_eq_foldl]
  exact hfold other.entries other.nodup catalogue

@[simp]
theorem merge_empty (catalogue : Catalogue) : catalogue.merge OrderedMap.empty = catalogue := rfl

/-- An entry may be added before a merge or after it. -/
theorem merge_add (catalogue other : Catalogue) (translation : Translation) :
    catalogue.merge (other.add translation) = (catalogue.merge other).add translation := by
  apply OrderedMap.ext_get?
  · rw [keys_add, keys_merge, keys_merge, keys_add]
    by_cases hother : translation.key ∈ other.keys
    · have hmerged : translation.key ∈
          catalogue.keys ++ other.keys.filter fun key => key ∉ catalogue.keys := by
        by_cases hmem : translation.key ∈ catalogue.keys <;> simp [hmem, hother]
      rw [if_pos hother, if_pos hmerged]
    · by_cases hmem : translation.key ∈ catalogue.keys <;> simp [hmem, hother]
  · intro key
    by_cases hkey : key = translation.key
    · subst hkey
      rw [get?_add_self, get?_merge, get?_merge, get?_add_self]
      cases other.get? translation.key with
      | none => rfl
      | some details => exact congrArg some (Details.join_merge details _ _)
    · rw [get?_add_of_ne _ _ hkey, get?_merge, get?_merge, get?_add_of_ne _ _ hkey]

end Catalogue

/-! ## All domains -/

namespace Catalogues

open TemplateMessages.Catalogue (Translation)

theorem get?_add_self (catalogues : Catalogues) (domain : String) (translation : Translation) :
    (catalogues.add domain translation).get? domain =
      some (Catalogue.add ((catalogues.get? domain).getD .empty) translation) :=
  catalogues.get?_alter_self domain _

theorem get?_add_of_ne (catalogues : Catalogues) {domain other : String} (h : other ≠ domain)
    (translation : Translation) :
    (catalogues.add domain translation).get? other = catalogues.get? other :=
  catalogues.get?_alter_of_ne h _

/-- A merge holds for a domain what the right side holds, joined to what the left side holds. -/
theorem get?_merge (catalogues other : Catalogues) (domain : String) :
    (catalogues.merge other).get? domain =
      ((other.get? domain).map fun added => joinDomain added (catalogues.get? domain)).or
        (catalogues.get? domain) :=
  lookup_foldl DomainMap.get? (fun map entry => map.get?_alter_self entry.1 _)
    (fun map _ _ hdomain => map.get?_alter_of_ne hdomain _) other.nodup_domains catalogues domain

@[simp]
theorem merge_empty (catalogues : Catalogues) : catalogues.merge .empty = catalogues := rfl

theorem merge_add (catalogues other : Catalogues) (domain : String) (translation : Translation) :
    catalogues.merge (other.add domain translation) =
      (catalogues.merge other).add domain translation := by
  apply DomainMap.ext_get?
  intro name
  by_cases hname : name = domain
  · subst hname
    rw [get?_merge, get?_add_self, get?_add_self, get?_merge]
    cases other.get? name with
    | none =>
        cases catalogues.get? name with
        | none => rfl
        | some present => exact congrArg some (Catalogue.merge_add present .empty translation)
    | some added =>
        cases catalogues.get? name with
        | none => rfl
        | some present => exact congrArg some (Catalogue.merge_add present added translation)
  · rw [get?_merge, get?_add_of_ne _ hname, get?_add_of_ne _ hname, get?_merge]

/-- Messages may be added before a merge or after it, one after the other. -/
theorem merge_foldl_addMessage (catalogues other : Catalogues) (defaultDomain : String)
    (occurrences : List (String × Message)) :
    catalogues.merge (occurrences.foldl
        (fun added occurrence => added.addMessage defaultDomain occurrence.1 occurrence.2) other) =
      occurrences.foldl
        (fun added occurrence => added.addMessage defaultDomain occurrence.1 occurrence.2)
        (catalogues.merge other) :=
  (List.foldl_hom catalogues.merge fun added _ => (merge_add catalogues added _ _).symm).symm

end Catalogues

end TemplateMessages

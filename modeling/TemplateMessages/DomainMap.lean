import TemplateMessages.Assoc

/-!
# Maps by domain

A map from domains to values that lists the domains in ascending order, by the
code points of their names.
-/

namespace TemplateMessages

structure DomainMap (α : Type) where
  entries : List (String × α)
  sorted : (Assoc.keys entries).Pairwise (· < ·)

namespace DomainMap

variable {α : Type}

def empty : DomainMap α := ⟨[], by simp⟩

instance : Inhabited (DomainMap α) := ⟨empty⟩

def domains (map : DomainMap α) : List String :=
  Assoc.keys map.entries

def get? (map : DomainMap α) (domain : String) : Option α :=
  Assoc.get? domain map.entries

/-- Changes the value of a domain, or inserts one in its place. -/
def alterEntries (domain : String) (change : Option α → α) :
    List (String × α) → List (String × α)
  | [] => [(domain, change none)]
  | (name, value) :: rest =>
      if domain < name then (domain, change none) :: (name, value) :: rest
      else if name < domain then (name, value) :: alterEntries domain change rest
      else (name, change (some value)) :: rest

theorem mem_keys_alterEntries {domain name : String} {change : Option α → α}
    {entries : List (String × α)} (h : name ∈ Assoc.keys (alterEntries domain change entries)) :
    name = domain ∨ name ∈ Assoc.keys entries := by
  induction entries with
  | nil => simpa [alterEntries] using h
  | cons entry rest ih =>
      obtain ⟨first, value⟩ := entry
      simp only [alterEntries] at h
      split at h
      · simpa using h
      · split at h
        · simp only [Assoc.keys_cons, List.mem_cons] at h ⊢
          rcases h with h | h
          · exact Or.inr (Or.inl h)
          · exact (ih h).imp id Or.inr
        · exact Or.inr h

theorem sorted_alterEntries (domain : String) (change : Option α → α)
    {entries : List (String × α)} (h : (Assoc.keys entries).Pairwise (· < ·)) :
    (Assoc.keys (alterEntries domain change entries)).Pairwise (· < ·) := by
  induction entries with
  | nil => simp [alterEntries]
  | cons entry rest ih =>
      obtain ⟨first, value⟩ := entry
      simp only [Assoc.keys_cons, List.pairwise_cons] at h
      simp only [alterEntries]
      split
      case isTrue hlt =>
        simp only [Assoc.keys_cons, List.pairwise_cons, List.mem_cons, forall_eq_or_imp]
        exact ⟨⟨hlt, fun name hname => String.lt_trans hlt (h.1 name hname)⟩, h⟩
      case isFalse =>
        split
        case isTrue hgt =>
          simp only [Assoc.keys_cons, List.pairwise_cons]
          refine ⟨fun name hname => ?_, ih h.2⟩
          rcases mem_keys_alterEntries hname with rfl | hmem
          · exact hgt
          · exact h.1 name hmem
        case isFalse => simpa using h

/-- The value of a domain made by `change` from its present one, if any. -/
def alter (map : DomainMap α) (domain : String) (change : Option α → α) : DomainMap α :=
  ⟨alterEntries domain change map.entries, sorted_alterEntries domain change map.sorted⟩

theorem nodup_domains (map : DomainMap α) : map.domains.Nodup := by
  refine map.sorted.imp ?_
  rintro first second hlt rfl
  exact String.lt_irrefl first hlt

/-- A domain below all that are listed is not listed. -/
theorem get?_eq_none_of_lt {domain : String} {entries : List (String × α)}
    (h : ∀ name ∈ Assoc.keys entries, domain < name) : Assoc.get? domain entries = none := by
  induction entries with
  | nil => rfl
  | cons entry rest ih =>
      have hne : entry.1 ≠ domain :=
        fun heq => String.lt_irrefl domain (heq ▸ h entry.1 List.mem_cons_self)
      rw [Assoc.get?, if_neg hne]
      apply ih
      intro name hname
      exact h name (List.mem_cons_of_mem _ hname)

theorem get?_alterEntries_self (domain : String) (change : Option α → α)
    {entries : List (String × α)} (h : (Assoc.keys entries).Pairwise (· < ·)) :
    Assoc.get? domain (alterEntries domain change entries) =
      some (change (Assoc.get? domain entries)) := by
  induction entries with
  | nil => simp [alterEntries, Assoc.get?]
  | cons entry rest ih =>
      obtain ⟨name, value⟩ := entry
      have hsorted := List.pairwise_cons.mp h
      by_cases hlt : domain < name
      · have hbelow : ∀ other ∈ Assoc.keys ((name, value) :: rest), domain < other :=
          List.forall_mem_cons.mpr ⟨hlt, fun other hother => String.lt_trans hlt (hsorted.1 other hother)⟩
        rw [alterEntries, if_pos hlt, Assoc.get?, if_pos rfl, get?_eq_none_of_lt hbelow]
      · by_cases hgt : name < domain
        · have hne : name ≠ domain := fun heq => String.lt_irrefl domain (heq ▸ hgt)
          rw [alterEntries, if_neg hlt, if_pos hgt, Assoc.get?, Assoc.get?, if_neg hne, if_neg hne]
          exact ih hsorted.2
        · obtain rfl : name = domain := String.le_antisymm (String.not_lt.mp hlt) (String.not_lt.mp hgt)
          rw [alterEntries, if_neg hlt, if_neg hgt, Assoc.get?, Assoc.get?, if_pos rfl, if_pos rfl]

theorem get?_alterEntries_of_ne {domain other : String} (hne : other ≠ domain)
    (change : Option α → α) (entries : List (String × α)) :
    Assoc.get? other (alterEntries domain change entries) = Assoc.get? other entries := by
  induction entries with
  | nil => simp [alterEntries, Assoc.get?, hne.symm]
  | cons entry rest ih =>
      obtain ⟨name, value⟩ := entry
      by_cases hlt : domain < name
      · rw [alterEntries, if_pos hlt, Assoc.get?, if_neg hne.symm]
      · by_cases hgt : name < domain
        · rw [alterEntries, if_neg hlt, if_pos hgt, Assoc.get?, Assoc.get?, ih]
        · obtain rfl : name = domain := String.le_antisymm (String.not_lt.mp hlt) (String.not_lt.mp hgt)
          rw [alterEntries, if_neg hlt, if_neg hgt, Assoc.get?, Assoc.get?, if_neg hne.symm,
            if_neg hne.symm]

@[simp]
theorem get?_alter_self (map : DomainMap α) (domain : String) (change : Option α → α) :
    (map.alter domain change).get? domain = some (change (map.get? domain)) :=
  get?_alterEntries_self domain change map.sorted

theorem get?_alter_of_ne (map : DomainMap α) {domain other : String} (h : other ≠ domain)
    (change : Option α → α) : (map.alter domain change).get? other = map.get? other :=
  get?_alterEntries_of_ne h change map.entries

theorem ext_entries {left right : DomainMap α} (h : left.entries = right.entries) :
    left = right := by
  cases left
  cases right
  cases h
  rfl

end DomainMap

end TemplateMessages

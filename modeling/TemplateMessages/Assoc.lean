/-!
# Association lists

Pairs of a key and a value in the order in which the keys first arrived.
Writing to a key that is present replaces the value where it stands; a new key
goes to the end.
-/

namespace TemplateMessages

abbrev Assoc (κ α : Type) := List (κ × α)

namespace Assoc

variable {κ α : Type} [DecidableEq κ]

def put (key : κ) (value : α) : Assoc κ α → Assoc κ α
  | [] => [(key, value)]
  | (k, v) :: rest => if k = key then (key, value) :: rest else (k, v) :: put key value rest

def get? (key : κ) : Assoc κ α → Option α
  | [] => none
  | (k, v) :: rest => if k = key then some v else get? key rest

def has (key : κ) (pairs : Assoc κ α) : Bool :=
  (get? key pairs).isSome

/-- The pairs of `extra` written over `base`, in order. -/
def putAll (base extra : Assoc κ α) : Assoc κ α :=
  extra.foldl (fun pairs entry => put entry.1 entry.2 pairs) base

/-- Any pairs as an association: of two with one key the later value stands in
the place of the earlier. -/
def ofPairs (pairs : List (κ × α)) : Assoc κ α :=
  putAll [] pairs

/-- The value of a key made by `change` from its present one, if any. -/
def alter (key : κ) (change : Option α → α) (pairs : Assoc κ α) : Assoc κ α :=
  put key (change (get? key pairs)) pairs

@[simp]
theorem get?_put_self (key : κ) (value : α) (pairs : Assoc κ α) :
    get? key (put key value pairs) = some value := by
  induction pairs with
  | nil => simp [put, get?]
  | cons entry rest ih =>
      by_cases h : entry.1 = key <;> simp [put, get?, h, ih]

theorem get?_put_of_ne {key other : κ} (h : other ≠ key) (value : α) (pairs : Assoc κ α) :
    get? other (put key value pairs) = get? other pairs := by
  induction pairs with
  | nil => simp [put, get?, Ne.symm h]
  | cons entry rest ih =>
      obtain ⟨k, v⟩ := entry
      by_cases hk : k = key
      · subst hk
        simp [put, get?, Ne.symm h]
      · by_cases ho : k = other
        · subst ho
          simp [put, get?, hk]
        · simp [put, get?, hk, ho, ih]

/-- The keys of an association, in order. -/
def keys (pairs : List (κ × α)) : List κ :=
  pairs.map Prod.fst

omit [DecidableEq κ] in
@[simp]
theorem keys_nil : keys ([] : List (κ × α)) = [] := rfl

omit [DecidableEq κ] in
@[simp]
theorem keys_cons (entry : κ × α) (rest : List (κ × α)) :
    keys (entry :: rest) = entry.1 :: keys rest := rfl

/-- Writing moves no key, and a new key goes to the end. -/
theorem keys_put (key : κ) (value : α) (pairs : Assoc κ α) :
    keys (put key value pairs) = if key ∈ keys pairs then keys pairs else keys pairs ++ [key] := by
  induction pairs with
  | nil => simp [put]
  | cons entry rest ih =>
      obtain ⟨k, v⟩ := entry
      by_cases hk : k = key
      · subst hk
        simp [put]
      · have hne : ¬ key = k := fun h => hk h.symm
        by_cases hm : key ∈ keys rest <;> simp [put, hk, hne, ih, hm]

/-- A new key goes to the end. -/
theorem put_of_notMem {key : κ} (value : α) {pairs : Assoc κ α} (h : key ∉ keys pairs) :
    put key value pairs = pairs ++ [(key, value)] := by
  induction pairs with
  | nil => rfl
  | cons entry rest ih =>
      rw [keys_cons, List.mem_cons, not_or] at h
      rw [put, if_neg (Ne.symm h.1), ih h.2, List.cons_append]

/-- Only a key that is present has a value. -/
theorem get?_eq_none_iff {key : κ} {pairs : Assoc κ α} : get? key pairs = none ↔ key ∉ keys pairs := by
  induction pairs with
  | nil => simp [get?]
  | cons entry rest ih =>
      by_cases hkey : entry.1 = key
      · simp [get?, hkey]
      · simp [get?, hkey, Ne.symm hkey, ih]

theorem has_iff_mem_keys {key : κ} {pairs : Assoc κ α} : pairs.has key = true ↔ key ∈ keys pairs := by
  rw [has, Option.isSome_iff_ne_none, ne_eq, get?_eq_none_iff, Classical.not_not]

theorem mem_of_get? {key : κ} {value : α} {pairs : Assoc κ α} (h : get? key pairs = some value) :
    (key, value) ∈ pairs := by
  induction pairs with
  | nil => simp [get?] at h
  | cons entry rest ih =>
      by_cases hkey : entry.1 = key
      · rw [get?, if_pos hkey] at h
        rw [← hkey, ← Option.some.inj h]
        exact List.mem_cons_self
      · rw [get?, if_neg hkey] at h
        exact List.mem_cons_of_mem _ (ih h)

/-- Where no key occurs twice, a key has the value that stands beside it. -/
theorem get?_eq_some_iff {key : κ} {value : α} {pairs : Assoc κ α} (hnodup : (keys pairs).Nodup) :
    get? key pairs = some value ↔ (key, value) ∈ pairs := by
  refine ⟨mem_of_get?, fun hmem => ?_⟩
  induction pairs with
  | nil => simp at hmem
  | cons entry rest ih =>
      obtain ⟨hnew, hrest⟩ := List.nodup_cons.mp hnodup
      rcases List.mem_cons.mp hmem with hentry | hmem
      · rw [← hentry, get?, if_pos rfl]
      · have hne : entry.1 ≠ key := fun heq => hnew (heq ▸ List.mem_map_of_mem hmem)
        rw [get?, if_neg hne, ih hrest hmem]

/-- Keys in order and the value of each make an association. -/
theorem ext_get? {left right : Assoc κ α} (hkeys : keys left = keys right)
    (hnodup : (keys left).Nodup) (hget : ∀ key, get? key left = get? key right) : left = right := by
  induction left generalizing right with
  | nil =>
      cases right with
      | nil => rfl
      | cons entry rest => simp at hkeys
  | cons entry rest ih =>
      cases right with
      | nil => simp at hkeys
      | cons other others =>
          obtain ⟨hfirst, hrest⟩ : entry.1 = other.1 ∧ keys rest = keys others :=
            List.cons.inj hkeys
          obtain ⟨hnew, hnodup⟩ := List.nodup_cons.mp hnodup
          have hvalue := hget entry.1
          have habsent : entry.1 ∉ keys others := hrest ▸ hnew
          rw [get?, if_pos rfl, get?, if_pos hfirst.symm] at hvalue
          have hothers : ∀ key, get? key rest = get? key others := by
            intro key
            by_cases hkey : key = entry.1
            · subst hkey
              rw [get?_eq_none_iff.mpr hnew, get?_eq_none_iff.mpr habsent]
            · have hget := hget key
              rwa [get?, if_neg (Ne.symm hkey), get?, if_neg (hfirst ▸ Ne.symm hkey)] at hget
          rw [Prod.ext hfirst (Option.some.inj hvalue), ih hrest hnodup hothers]

omit [DecidableEq κ] in
/-- What is in a list once an element has been put at its end, unless it was there. -/
theorem mem_ite_concat {key other : κ} {present : List κ} [Decidable (key ∈ present)] :
    other ∈ (if key ∈ present then present else present ++ [key]) ↔
      other ∈ present ∨ other = key := by
  split
  case isTrue hmem =>
    constructor
    · exact Or.inl
    · rintro (hother | rfl)
      · exact hother
      · exact hmem
  case isFalse => rw [List.mem_append, List.mem_singleton]

theorem mem_keys_put {key other : κ} {value : α} {pairs : Assoc κ α} :
    other ∈ keys (put key value pairs) ↔ other ∈ keys pairs ∨ other = key := by
  rw [keys_put, mem_ite_concat]

theorem mem_keys_putAll {key : κ} {base extra : Assoc κ α} :
    key ∈ keys (putAll base extra) ↔ key ∈ keys base ∨ key ∈ keys extra := by
  induction extra generalizing base with
  | nil => simp [putAll]
  | cons entry rest ih =>
      have hrest : key ∈ keys (putAll (put entry.1 entry.2 base) rest) ↔ _ := ih
      rw [mem_keys_put, or_assoc] at hrest
      rw [keys_cons, List.mem_cons]
      exact hrest

/-- A key that is written with one value only has that value. -/
theorem get?_putAll {key : κ} {value : α} {base extra : Assoc κ α}
    (hsame : ∀ entry ∈ extra, entry.1 = key → entry.2 = value)
    (hpresent : key ∈ keys extra ∨ get? key base = some value) :
    get? key (putAll base extra) = some value := by
  induction extra generalizing base with
  | nil => simpa [putAll] using hpresent
  | cons entry rest ih =>
      obtain ⟨hfirst, hrest⟩ := List.forall_mem_cons.mp hsame
      rw [keys_cons, List.mem_cons] at hpresent
      apply ih hrest
      by_cases hkey : entry.1 = key
      · rw [← hkey, get?_put_self, hfirst hkey]
        exact .inr rfl
      · rw [get?_put_of_ne (Ne.symm hkey)]
        exact hpresent.imp_left (·.resolve_left (Ne.symm hkey))

theorem ofPairs_concat (pairs : List (κ × α)) (entry : κ × α) :
    ofPairs (pairs ++ [entry]) = put entry.1 entry.2 (ofPairs pairs) := by
  rw [ofPairs, putAll, List.foldl_append]
  rfl

theorem putAll_of_nodup {base extra : Assoc κ α} (h : (keys (base ++ extra)).Nodup) :
    putAll base extra = base ++ extra := by
  induction extra generalizing base with
  | nil => rw [List.append_nil, putAll, List.foldl_nil]
  | cons entry rest ih =>
      have hnew : entry.1 ∉ keys base := by
        intro hmem
        rw [keys, List.map_append] at h
        exact (List.nodup_append.mp h).2.2 _ hmem entry.1 List.mem_cons_self rfl
      rw [List.append_cons] at h ⊢
      rw [← ih h, ← put_of_notMem entry.2 hnew]
      rfl

/-- Pairs of different keys are an association as they stand. -/
theorem ofPairs_of_nodup {pairs : List (κ × α)} (h : (keys pairs).Nodup) : ofPairs pairs = pairs :=
  putAll_of_nodup h

theorem nodup_keys_put (key : κ) (value : α) {pairs : Assoc κ α}
    (h : (keys pairs).Nodup) : (keys (put key value pairs)).Nodup := by
  rw [keys_put]
  by_cases hm : key ∈ keys pairs
  · simpa [hm] using h
  · simp only [hm, if_false]
    refine List.nodup_append.mpr ⟨h, by simp, ?_⟩
    intro a ha b hb
    simp only [List.mem_singleton] at hb
    subst hb
    exact fun hab => hm (hab ▸ ha)

end Assoc

end TemplateMessages

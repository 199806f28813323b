import TemplateMessages.Assoc

/-!
# Maps in order of arrival

A map whose entries stand in the order in which their keys first arrived.  No
key occurs twice, and every operation keeps it so.
-/

namespace TemplateMessages

structure OrderedMap (κ α : Type) where
  entries : Assoc κ α
  nodup : (Assoc.keys entries).Nodup

namespace OrderedMap

variable {κ α : Type}

def empty : OrderedMap κ α := ⟨[], by simp⟩

instance : Inhabited (OrderedMap κ α) := ⟨empty⟩

def keys (map : OrderedMap κ α) : List κ :=
  Assoc.keys map.entries

def size (map : OrderedMap κ α) : Nat :=
  map.entries.length

variable [DecidableEq κ]

def get? (map : OrderedMap κ α) (key : κ) : Option α :=
  map.entries.get? key

def put (map : OrderedMap κ α) (key : κ) (value : α) : OrderedMap κ α :=
  ⟨map.entries.put key value, Assoc.nodup_keys_put key value map.nodup⟩

/-- The value of a key made by `change` from its present one, if any. -/
def alter (map : OrderedMap κ α) (key : κ) (change : Option α → α) : OrderedMap κ α :=
  map.put key (change (map.get? key))

omit [DecidableEq κ] in
theorem ext_entries {left right : OrderedMap κ α} (h : left.entries = right.entries) :
    left = right := by
  cases left
  cases right
  cases h
  rfl

/-- Maps of the same keys in the same order are told apart by a value. -/
theorem ext_get? {left right : OrderedMap κ α} (hkeys : left.keys = right.keys)
    (hget : ∀ key, left.get? key = right.get? key) : left = right :=
  ext_entries (Assoc.ext_get? hkeys left.nodup hget)

@[simp]
theorem get?_empty (key : κ) : (empty : OrderedMap κ α).get? key = none := rfl

@[simp]
theorem get?_put_self (map : OrderedMap κ α) (key : κ) (value : α) :
    (map.put key value).get? key = some value :=
  Assoc.get?_put_self key value map.entries

theorem get?_put_of_ne (map : OrderedMap κ α) {key other : κ} (h : other ≠ key) (value : α) :
    (map.put key value).get? other = map.get? other :=
  Assoc.get?_put_of_ne h value map.entries

theorem keys_put (map : OrderedMap κ α) (key : κ) (value : α) :
    (map.put key value).keys = if key ∈ map.keys then map.keys else map.keys ++ [key] :=
  Assoc.keys_put key value map.entries

end OrderedMap

end TemplateMessages

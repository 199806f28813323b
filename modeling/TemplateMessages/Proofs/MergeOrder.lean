import TemplateMessages.Proofs.Merging

/-!
# The order of a merge

Two catalogues may be merged in either order: both ways give the same domains and
the same keys, and entries that say the same in another order.  Only the plural
looks at the order, since the first one counts; it is the same both ways exactly
when no entry has two.
-/

namespace TemplateMessages

namespace Catalogue.Details

/-- Both say the same, in whatever order. -/
structure Agrees (left right : Details) : Prop where
  plural : left.plural = right.plural
  comments : left.comments.Perm right.comments
  references : ∀ reference, reference ∈ left.references.toList ↔ reference ∈ right.references.toList

/-- The details do not have two different plurals. -/
def Compatible (left right : Details) : Prop :=
  ∀ first ∈ left.plural, ∀ second ∈ right.plural, first = second

theorem Agrees.refl (details : Details) : details.Agrees details :=
  ⟨rfl, .refl _, fun _ => .rfl⟩

/-- The first plural is the same from either side when there are no two different ones. -/
theorem compatible_iff {left right : Details} :
    left.Compatible right ↔ left.plural.or right.plural = right.plural.or left.plural := by
  unfold Compatible
  cases left.plural with
  | none => simp
  | some first =>
      cases right.plural with
      | none => simp
      | some second => simp

/-- Comments and references are the same both ways in any case. -/
theorem agrees_merge_comm_iff (left right : Details) :
    (left.merge right).Agrees (right.merge left) ↔ left.Compatible right := by
  rw [compatible_iff]
  constructor
  · exact Agrees.plural
  · intro hplural
    refine ⟨hplural, List.perm_append_comm, fun reference => ?_⟩
    calc
      reference ∈ (left.merge right).references.toList
        ↔ reference ∈ left.references.toList ∨ reference ∈ right.references.toList :=
          References.mem_insertAll
      _ ↔ reference ∈ right.references.toList ∨ reference ∈ left.references.toList := Or.comm
      _ ↔ reference ∈ (right.merge left).references.toList := References.mem_insertAll.symm

end Catalogue.Details

namespace Catalogues

open TemplateMessages.Catalogue (Details TranslationKey)

/-- What is said under a domain and a key. -/
def details? (catalogues : Catalogues) (domain : String) (key : TranslationKey) : Option Details :=
  (catalogues.get? domain).bind fun catalogue => catalogue.get? key

/-- The keys of a domain, none where the domain is missing. -/
def keysIn (catalogues : Catalogues) (domain : String) : List TranslationKey :=
  ((catalogues.get? domain).getD .empty).keys

/-- A merge holds for a domain and a key what the right side holds, joined to what the left side
holds. -/
theorem details?_merge (catalogues other : Catalogues) (domain : String) (key : TranslationKey) :
    (catalogues.merge other).details? domain key =
      ((other.details? domain key).map fun added => added.join (catalogues.details? domain key)).or
        (catalogues.details? domain key) := by
  unfold details?
  rw [get?_merge]
  cases other.get? domain with
  | none => rfl
  | some added =>
      cases catalogues.get? domain with
      | none =>
          -- A domain that is new takes the catalogue as it is, which is what joining nothing leaves.
          have hjoin : (joinDomain added none).get? key =
              ((added.get? key).map fun details => details.join none).or none := by
            cases hadded : added.get? key <;> exact hadded
          exact hjoin
      | some present => exact Catalogue.get?_merge present added key

section Sides

variable {left right : Catalogues} {domain : String} {key : TranslationKey}

theorem details?_merge_of_left_none (hleft : left.details? domain key = none) :
    (left.merge right).details? domain key = right.details? domain key := by
  rw [details?_merge, hleft]
  cases right.details? domain key <;> rfl

theorem details?_merge_of_right_none (hright : right.details? domain key = none) :
    (left.merge right).details? domain key = left.details? domain key := by
  rw [details?_merge, hright]
  rfl

theorem details?_merge_of_some {first second : Details} (hleft : left.details? domain key = some first)
    (hright : right.details? domain key = some second) :
    (left.merge right).details? domain key = some (first.merge second) := by
  rw [details?_merge, hleft, hright]
  rfl

end Sides

theorem mem_domains_merge (catalogues other : Catalogues) (domain : String) :
    domain ∈ (catalogues.merge other).domains ↔ domain ∈ catalogues.domains ∨ domain ∈ other.domains := by
  simp only [DomainMap.mem_domains_iff, get?_merge]
  cases other.get? domain <;> simp

theorem mem_keysIn_iff (catalogues : Catalogues) (domain : String) (key : TranslationKey) :
    key ∈ catalogues.keysIn domain ↔ catalogues.details? domain key ≠ none := by
  unfold keysIn details?
  cases catalogues.get? domain with
  | none => exact iff_of_false List.not_mem_nil (not_not.mpr rfl)
  | some catalogue =>
      rw [Option.bind_some, Ne, OrderedMap.get?, Assoc.get?_eq_none_iff, not_not]
      rfl

/-- The same domains with the same keys, and entries that say the same, in whatever order. -/
structure Agrees (left right : Catalogues) : Prop where
  domains : left.domains = right.domains
  keys : ∀ domain, (left.keysIn domain).Perm (right.keysIn domain)
  entries : ∀ {domain : String} {key : TranslationKey} {first second : Details},
    left.details? domain key = some first → right.details? domain key = some second → first.Agrees second

/-- No entry that is in both has two different plurals. -/
def Compatible (left right : Catalogues) : Prop :=
  ∀ {domain : String} {key : TranslationKey} {first second : Details},
    left.details? domain key = some first → right.details? domain key = some second →
      first.Compatible second

theorem nodup_keysIn (catalogues : Catalogues) (domain : String) : (catalogues.keysIn domain).Nodup :=
  ((catalogues.get? domain).getD .empty).nodup

theorem domains_merge_comm (left right : Catalogues) :
    (left.merge right).domains = (right.merge left).domains := by
  apply (left.merge right).sorted.eq_of_mem_iff (right.merge left).sorted
  intro domain
  calc
    domain ∈ (left.merge right).domains ↔ domain ∈ left.domains ∨ domain ∈ right.domains :=
      mem_domains_merge left right domain
    _ ↔ domain ∈ right.domains ∨ domain ∈ left.domains := Or.comm
    _ ↔ domain ∈ (right.merge left).domains := (mem_domains_merge right left domain).symm

theorem keysIn_merge_perm (left right : Catalogues) (domain : String) :
    ((left.merge right).keysIn domain).Perm ((right.merge left).keysIn domain) := by
  rw [List.perm_ext_iff_of_nodup (nodup_keysIn _ _) (nodup_keysIn _ _)]
  intro key
  rw [mem_keysIn_iff, mem_keysIn_iff, details?_merge, details?_merge]
  cases left.details? domain key <;> cases right.details? domain key <;> simp

/-- Two catalogues may be merged in either order, up to the order of what they hold, exactly when
no entry that is in both has two different plurals. -/
theorem merge_agrees_iff (left right : Catalogues) :
    (left.merge right).Agrees (right.merge left) ↔ left.Compatible right := by
  constructor
  · intro hagrees domain key first second hfirst hsecond
    have hleft := details?_merge_of_some hfirst hsecond
    have hright := details?_merge_of_some hsecond hfirst
    exact (Details.agrees_merge_comm_iff first second).mp (hagrees.entries hleft hright)
  · intro hcompatible
    refine ⟨domains_merge_comm left right, keysIn_merge_perm left right, ?_⟩
    intro domain key first second hfirst hsecond
    cases hleft : left.details? domain key with
    | none =>
        -- An entry that one side lacks is that of the other side, either way.
        rw [details?_merge_of_left_none hleft] at hfirst
        rw [details?_merge_of_right_none hleft] at hsecond
        obtain rfl := Option.some.inj (hfirst.symm.trans hsecond)
        exact .refl first
    | some inLeft =>
        cases hright : right.details? domain key with
        | none =>
            rw [details?_merge_of_right_none hright] at hfirst
            rw [details?_merge_of_left_none hright] at hsecond
            obtain rfl := Option.some.inj (hfirst.symm.trans hsecond)
            exact .refl first
        | some inRight =>
            rw [details?_merge_of_some hleft hright] at hfirst
            rw [details?_merge_of_some hright hleft] at hsecond
            obtain rfl := Option.some.inj hfirst
            obtain rfl := Option.some.inj hsecond
            exact (Details.agrees_merge_comm_iff inLeft inRight).mpr (hcompatible hleft hright)

end Catalogues

end TemplateMessages

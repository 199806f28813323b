import TemplateMessages.Proofs.Merging

/-!
# The laws of merging

Catalogues that are extracted apart may be merged in any portions: only their
order counts.  In one domain this follows from the fact that an entry may be
added before a merge or after it, and the domains are compared one by one.  A
domain that is new takes over a whole catalogue, entries or none, and one that
is there takes entry after entry; the cases below show that the two agree.
-/

namespace TemplateMessages

namespace Catalogue

theorem merge_assoc (first second third : Catalogue) :
    (first.merge second).merge third = first.merge (second.merge third) :=
  List.foldl_hom first.merge fun merged translation => (merge_add first merged translation).symm

end Catalogue

namespace Catalogues

/-- Two catalogues join what a domain holds one after the other, or both together. -/
theorem joinDomain_merge (first second : Catalogue) (present : Option Catalogue) :
    joinDomain (first.merge second) present = joinDomain second (some (joinDomain first present)) := by
  cases present with
  | none => rfl
  | some catalogue => exact (Catalogue.merge_assoc catalogue first second).symm

theorem merge_assoc (first second third : Catalogues) :
    (first.merge second).merge third = first.merge (second.merge third) := by
  apply DomainMap.ext_get?
  intro domain
  simp only [get?_merge]
  cases third.get? domain with
  | none => rfl
  | some last =>
      cases second.get? domain with
      | none => rfl
      | some middle => exact congrArg some (joinDomain_merge middle last (first.get? domain)).symm

theorem empty_merge (catalogues : Catalogues) : merge .empty catalogues = catalogues := by
  apply DomainMap.ext_get?
  intro domain
  rw [get?_merge]
  cases catalogues.get? domain <;> rfl

/-- Catalogues are a monoid under merging, whatever operations have built them: the value does not
depend on how the portions are put together, to the order of the entries, comments and references,
and catalogues without a domain add nothing on either side. -/
theorem merge_laws (first second third : Catalogues) :
    (first.merge second).merge third = first.merge (second.merge third) ∧
    merge .empty first = first ∧ first.merge .empty = first :=
  ⟨merge_assoc first second third, empty_merge first, merge_empty first⟩

end Catalogues

end TemplateMessages

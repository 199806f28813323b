import Mathlib.Data.Finset.Card
import Mathlib.Order.Bounds.Basic
import TemplateMessages.Proofs.ContextKeys

/-!
# The search for a free key

A store is asked for the keys of a text by one number after another, up to the
first key that it does not have.  Nothing in the search tells how far it may go:
it ends because keys of different numbers are different, so a store has to hold
one of its keys for every number that is passed.  What it finds has the least
free number, and the text is what is left when its marker is taken off, whatever
the text looks like.
-/

namespace TemplateMessages.Catalogue

/-- A search that asks whether the keys of a text are taken, from a number on and up to the first
that is not: the key that it ends with, and for how many keys it asks.  A search that does not end
finds nothing. -/
inductive Finds (taken : String → Bool) (id : String) : Nat → String → Nat → Prop
  | stop {number : Nat} :
      taken (contextKey number id) = false → Finds taken id number (contextKey number id) 1
  | pass {number asked : Nat} {key : String} :
      taken (contextKey number id) = true → Finds taken id (number + 1) key asked →
      Finds taken id number key (asked + 1)

/-- The search passes the taken keys and ends at the first that is free. -/
theorem Finds.of_free {taken : String → Bool} {id : String} {number passed : Nat}
    (htaken : ∀ step < passed, taken (contextKey (number + step) id) = true)
    (hfree : taken (contextKey (number + passed) id) = false) :
    Finds taken id number (contextKey (number + passed) id) (passed + 1) := by
  induction passed generalizing number with
  | zero => exact .stop hfree
  | succ passed ih =>
      have hnext : ∀ step, number + 1 + step = number + (step + 1) := fun step => by omega
      have hbehind : Finds taken id (number + 1) (contextKey (number + 1 + passed) id)
          (passed + 1) := by
        refine ih (fun step hstep => ?_) ?_
        · rw [hnext]
          exact htaken (step + 1) (Nat.succ_lt_succ hstep)
        · rwa [hnext]
      rw [hnext] at hbehind
      exact .pass (htaken 0 (Nat.succ_pos passed)) hbehind

/-- Numbers whose keys are all taken are at most as many as the keys. -/
theorem le_card_of_forall_mem {taken : List String} {id : String} {number : Nat}
    (htaken : ∀ lower < number, contextKey lower id ∈ taken) : number ≤ taken.toFinset.card := by
  have hsubset :
      (Finset.range number).image (fun lower => contextKey lower id) ⊆ taken.toFinset := by
    intro key hkey
    obtain ⟨lower, hlower, rfl⟩ := Finset.mem_image.mp hkey
    exact List.mem_toFinset.mpr (htaken lower (Finset.mem_range.mp hlower))
  calc
    number = (Finset.range number).card := (Finset.card_range number).symm
    _ = ((Finset.range number).image fun lower => contextKey lower id).card :=
      (Finset.card_image_of_injective _ (contextKey_injective id)).symm
    _ ≤ taken.toFinset.card := Finset.card_le_card hsubset

/-- The free key is what the search from the first number on finds. -/
theorem exists_finds_freeContextKey {taken : List String} {has : String → Bool}
    (hhas : ∀ key, has key = true ↔ key ∈ taken) (id : String) :
    ∃ number ≤ taken.toFinset.card,
      freeContextKey taken id = contextKey number id ∧
      IsLeast {number | has (contextKey number id) = false} number ∧
      Finds has id 0 (contextKey number id) (number + 1) := by
  obtain ⟨number, -, hkey, hfree, hlower⟩ := freeContextKey_spec taken id
  have hhasFree : has (contextKey number id) = false := eq_false_of_ne_true (mt (hhas _).mp hfree)
  have hhasLower : ∀ lower < number, has (contextKey lower id) = true :=
    fun lower hlt => (hhas _).mpr (hlower lower hlt)
  refine ⟨number, le_card_of_forall_mem hlower, hkey, ⟨hhasFree, fun other hother => ?_⟩, ?_⟩
  · by_contra hlt
    exact absurd (hhasLower other (Nat.lt_of_not_le hlt)) (ne_true_of_eq_false hother)
  · have hfinds : Finds has id 0 (contextKey (0 + number) id) (number + 1) := by
      refine Finds.of_free (fun step hstep => ?_) ?_
      · rw [Nat.zero_add]
        exact hhasLower step hstep
      · rwa [Nat.zero_add]
    rwa [Nat.zero_add] at hfinds

namespace Store

/-- An import searches among the keys of the store and those that it reserves. -/
theorem exists_finds_keyFor (store : Store) (reserved : List String) (domain : String)
    {translation : Translation} (hcontext : translation.key.context.isSome) :
    ∃ number ≤ (reserved ++ store.keys domain).toFinset.card,
      Finds (fun key => reserved.contains key || store.view.has key domain)
        (messageId translation) 0 (store.keyFor reserved domain translation) (number + 1) := by
  obtain ⟨context, hsome⟩ := Option.isSome_iff_exists.mp hcontext
  have hhas : ∀ key, (reserved.contains key || store.view.has key domain) = true ↔
      key ∈ reserved ++ store.keys domain := by
    intro key
    rw [Bool.or_eq_true, List.contains_iff_mem, View.has, List.contains_iff_mem, List.mem_append]
    rfl
  obtain ⟨number, hle, hkey, -, hfinds⟩ := exists_finds_freeContextKey hhas (messageId translation)
  refine ⟨number, hle, ?_⟩
  rw [keyFor, hsome, hkey]
  exact hfinds

namespace View

/-- The marker of a key is taken off when a context is recorded for it. -/
theorem decontextualise_contextKey {view : View} {domain : String} {metadata : Metadata}
    {number : Nat} {id : String}
    (hmetadata : view.metadata? (contextKey number id) domain = some metadata)
    (hcontext : metadata.context.isSome) :
    view.decontextualise (contextKey number id) domain = .ok id := by
  have haware : view.metadata.isNone = false := by
    cases hlookup : view.metadata with
    | none =>
        rw [View.metadata?, hlookup] at hmetadata
        cases hmetadata
    | some lookup => rfl
  rw [decontextualise, haware, hmetadata, dropContext_contextKey hcontext]
  rfl

end View

end Store

end TemplateMessages.Catalogue

import Mathlib.Data.List.Nodup
import Mathlib.Data.List.Perm.Subperm
import Mathlib.Tactic.Push
import TemplateMessages.Catalogue.Store
import TemplateMessages.Proofs.Separators

/-!
# Keys of messages with a context

A message with a context is stored behind the first marker whose key is free.
Among one more numbers than there are taken keys there is always a free one, so
the search ends, and the marker can be taken off again: the number is followed by
a colon, which is no digit.
-/

namespace TemplateMessages.Catalogue

theorem toList_contextKey (number : Nat) (id : String) :
    (contextKey number id).toList =
      contextWord.toList ++ (Nat.toDigits 10 number ++ ':' :: ':' :: id.toList) := by
  simp [contextKey, String.toList_append, Nat.toString_eq_repr, Nat.toList_repr]

/-- Keys of one text and different numbers are different. -/
theorem contextKey_injective (id : String) : Function.Injective fun number => contextKey number id := by
  intro first second heq
  have hlists := congrArg String.toList heq
  simp only [toList_contextKey] at hlists
  have hdigits : Nat.toDigits 10 first = Nat.toDigits 10 second :=
    List.append_cancel_right (List.append_cancel_left hlists)
  calc
    first = Nat.ofDigitChars 10 (Nat.toDigits 10 first) 0 := Nat.ofDigitChars_ten_toDigits.symm
    _ = Nat.ofDigitChars 10 (Nat.toDigits 10 second) 0 := by rw [hdigits]
    _ = second := Nat.ofDigitChars_ten_toDigits

/-! ## The first free number -/

/-- Not all of the first numbers are taken. -/
theorem exists_free_number (taken : List String) (id : String) :
    ∃ number ≤ taken.length, contextKey number id ∉ taken := by
  by_contra hnone
  push Not at hnone
  have hsubset : (List.range (taken.length + 1)).map (fun number => contextKey number id) ⊆ taken := by
    intro key hkey
    obtain ⟨number, hnumber, rfl⟩ := List.mem_map.mp hkey
    exact hnone number (Nat.lt_succ_iff.mp (List.mem_range.mp hnumber))
  have hnodup : ((List.range (taken.length + 1)).map fun number => contextKey number id).Nodup :=
    List.Nodup.map (contextKey_injective id) List.nodup_range
  have hlength := (hnodup.subperm hsubset).length_le
  rw [List.length_map, List.length_range] at hlength
  omega

/-- The free key has the least number whose key is not taken. -/
theorem freeContextKey_spec (taken : List String) (id : String) :
    ∃ number ≤ taken.length, freeContextKey taken id = contextKey number id ∧
      contextKey number id ∉ taken ∧ ∀ lower < number, contextKey lower id ∈ taken := by
  let free := fun number => !taken.contains (contextKey number id)
  cases hfind : (List.range (taken.length + 1)).find? free with
  | none =>
      obtain ⟨number, hle, hfree⟩ := exists_free_number taken id
      have htaken := List.find?_range_eq_none.mp hfind number (Nat.lt_succ_of_le hle)
      simp [free, hfree] at htaken
  | some number =>
      obtain ⟨hfree, hrange, hlower⟩ := List.find?_range_eq_some.mp hfind
      refine ⟨number, Nat.lt_succ_iff.mp (List.mem_range.mp hrange), ?_, by simpa [free] using hfree,
        fun lower hlt => by simpa [free] using hlower lower hlt⟩
      have hkey : (fun key => !taken.contains key) ∘ (fun number => contextKey number id) = free := rfl
      rw [freeContextKey, List.find?_map, hkey, hfind, Option.map_some, Option.getD_some]

theorem freeContextKey_notMem (taken : List String) (id : String) :
    freeContextKey taken id ∉ taken := by
  obtain ⟨number, -, hkey, hfree, -⟩ := freeContextKey_spec taken id
  rw [hkey]
  exact hfree

/-! ## Taking the marker off -/

theorem takeWhile_digits (number : Nat) (rest : List Char) :
    (Nat.toDigits 10 number ++ ':' :: rest).takeWhile Text.isDecimalDigit =
      Nat.toDigits 10 number := by
  apply takeWhile_append_stop _ (by decide)
  intro c hc
  exact Text.isDecimalDigit_of_isDigit (Nat.isDigit_of_mem_toDigits (by decide) (by decide) hc)

theorem afterMarker?_contextKey (number : Nat) (id : String) :
    afterMarker? (contextKey number id).toList = some id.toList := by
  have hmarker : contextWord.toList.isPrefixOf? (contextKey number id).toList =
      some (Nat.toDigits 10 number ++ ':' :: ':' :: id.toList) :=
    List.isPrefixOf?_eq_some_iff_append_eq.mpr (toList_contextKey number id).symm
  have hdigits : (Nat.toDigits 10 number).isEmpty = false := by
    simp [Nat.toDigits_ne_nil]
  unfold afterMarker?
  rw [hmarker]
  simp only [takeWhile_digits, hdigits, List.drop_left]
  rfl

/-- A key whose metadata records a context is the text again. -/
theorem dropContext_contextKey {metadata : Metadata} (hcontext : metadata.context.isSome)
    (number : Nat) (id : String) :
    dropContext (some metadata) (contextKey number id) = id := by
  have hmarker : contextWord.toList.isPrefixOf (contextKey number id).toList = true := by
    rw [toList_contextKey]
    exact List.isPrefixOf_iff_prefix.mpr (List.prefix_append _ _)
  unfold dropContext
  rw [hmarker, Option.any_some, hcontext, Bool.and_self, if_pos rfl]
  cases hkey : (contextKey number id).toList with
  | nil => simp [toList_contextKey, contextWord] at hkey
  | cons c rest =>
      rw [dropMarker, ← hkey, afterMarker?_contextKey, Option.getD_some, String.ofList_toList]

/-- A key whose metadata records no context is left as it is. -/
theorem dropContext_of_none {metadata : Metadata} (hcontext : metadata.context = none)
    (key : String) : dropContext (some metadata) key = key := by
  rw [dropContext, Option.any_some, hcontext, Option.isSome_none, Bool.and_false]
  rfl

/-- The text of a key that has a marker exactly when its metadata records a context. -/
theorem dropContext_eq_of_marked {metadata : Metadata} {key id : String}
    (hplain : metadata.context = none → key = id)
    (hmarked : metadata.context.isSome → ∃ number, key = contextKey number id) :
    dropContext (some metadata) key = id := by
  cases hcontext : metadata.context with
  | none =>
      rw [dropContext_of_none hcontext]
      exact hplain hcontext
  | some context =>
      have hsome : metadata.context.isSome := by
        rw [hcontext, Option.isSome_some]
      obtain ⟨number, rfl⟩ := hmarked hsome
      exact dropContext_contextKey hsome number id

end TemplateMessages.Catalogue

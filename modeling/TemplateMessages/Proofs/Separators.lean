import Mathlib.Data.List.Basic

/-!
# Separators

A separator ends what stands in front of it, and lists are joined with a
separator between one and the next.
-/

namespace TemplateMessages

variable {α : Type}

theorem takeWhile_append_stop {keep : α → Bool} {front : List α} {stop : α}
    (hfront : ∀ x ∈ front, keep x = true) (hstop : keep stop = false) (rest : List α) :
    (front ++ stop :: rest).takeWhile keep = front := by
  rw [List.takeWhile_append_of_pos hfront, List.takeWhile_cons_of_neg (ne_true_of_eq_false hstop),
    List.append_nil]

theorem mem_or_of_mem_intercalate {separator : List α} {parts : List (List α)} {x : α}
    (hmem : x ∈ separator.intercalate parts) : x ∈ separator ∨ ∃ part ∈ parts, x ∈ part := by
  induction parts with
  | nil => simp at hmem
  | cons part rest ih =>
      cases rest with
      | nil =>
          rw [List.intercalate_singleton] at hmem
          exact .inr ⟨part, List.mem_cons_self, hmem⟩
      | cons next others =>
          rw [List.intercalate_cons_cons, List.mem_append, List.mem_append] at hmem
          rcases hmem with (hpart | hseparator) | hothers
          · exact .inr ⟨part, List.mem_cons_self, hpart⟩
          · exact .inl hseparator
          · refine (ih hothers).imp_right ?_
            rintro ⟨later, hlater, hx⟩
            exact ⟨later, List.mem_cons_of_mem _ hlater, hx⟩

theorem mem_intercalate_of_mem {separator : List α} {parts : List (List α)} {part : List α}
    (hpart : part ∈ parts) {x : α} (hx : x ∈ part) : x ∈ separator.intercalate parts := by
  induction parts with
  | nil => exact absurd hpart List.not_mem_nil
  | cons first rest ih =>
      cases rest with
      | nil =>
          rw [List.intercalate_singleton, ← List.mem_singleton.mp hpart]
          exact hx
      | cons next others =>
          rw [List.intercalate_cons_cons]
          rcases List.mem_cons.mp hpart with rfl | hpart
          · exact List.mem_append_left _ (List.mem_append_left _ hx)
          · exact List.mem_append_right _ (ih hpart)

/-- A text without separators in front of another goes to its first part. -/
theorem splitOn_append_of_front [BEq α] [LawfulBEq α] {separator : α} {front : List α}
    (hfront : separator ∉ front) (text : List α) :
    (front ++ text).splitOn separator = (text.splitOn separator).modifyHead (front ++ ·) := by
  induction front with
  | nil => cases htext : text.splitOn separator <;> simp [htext]
  | cons first rest ih =>
      rw [List.mem_cons, not_or] at hfront
      have hne : (first == separator) = false := beq_eq_false_iff_ne.mpr (Ne.symm hfront.1)
      rw [List.cons_append, List.splitOn_cons_eq_if_modifyHead, hne, ih hfront.2]
      simp [Function.comp_def]

theorem intercalate_concat (separator last : List α) (front : List (List α)) :
    separator.intercalate (front ++ [last]) = front.flatMap (· ++ separator) ++ last := by
  induction front with
  | nil => simp [List.intercalate]
  | cons first front ih =>
      rw [List.cons_append, List.flatMap_cons, List.append_assoc, ← ih]
      cases front <;> simp [List.intercalate]

end TemplateMessages

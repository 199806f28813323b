import Mathlib.Data.List.DropRight
import TemplateMessages.Text.Blank

/-!
# Trimmed texts

Trimming takes a run of characters of one class off each end of a text.  A text
is trimmed when it neither starts nor ends with such a character, which is
exactly when trimming leaves it alone, so trimming twice is trimming once.
-/

namespace TemplateMessages.Text

variable {drop : Char → Bool}

/-- A text that has no character of a class at its two ends. -/
structure Trimmed (drop : Char → Bool) (text : List Char) : Prop where
  start : ∀ c ∈ text.head?, drop c = false
  stop : ∀ c ∈ text.getLast?, drop c = false

theorem stripEnd_concat (text : List Char) (c : Char) :
    stripEnd drop (text ++ [c]) = if drop c then stripEnd drop text else text ++ [c] := by
  induction text with
  | nil => simp [stripEnd]
  | cons first rest ih =>
      rw [List.cons_append, stripEnd_cons, ih]
      split
      · rw [stripEnd_cons]
      · simp

theorem stripEnd_eq_rdropWhile (text : List Char) :
    stripEnd drop text = text.rdropWhile drop := by
  induction text using List.reverseRecOn with
  | nil => rfl
  | append_singleton rest c ih => rw [stripEnd_concat, List.rdropWhile_concat, ih]

theorem stripEnd_isPrefix (drop : Char → Bool) (text : List Char) :
    stripEnd drop text <+: text := by
  rw [stripEnd_eq_rdropWhile]
  exact List.rdropWhile_prefix drop text

theorem getLast?_stripEnd {text : List Char} {c : Char}
    (hlast : c ∈ (stripEnd drop text).getLast?) : drop c = false := by
  rw [stripEnd_eq_rdropWhile] at hlast
  obtain ⟨hne, hc⟩ := List.mem_getLast?_eq_getLast hlast
  have hnot := List.rdropWhile_last_not drop text hne
  rw [hc]
  simpa using hnot

theorem head?_stripStart {text : List Char} {c : Char}
    (hhead : c ∈ (stripStart drop text).head?) : drop c = false := by
  have hnot := List.head?_dropWhile_not drop text
  rw [Option.mem_def] at hhead
  rw [stripStart] at hhead
  rw [hhead] at hnot
  exact hnot

theorem stripEnd_eq_nil {text : List Char} (hdrop : ∀ c ∈ text, drop c = true) :
    stripEnd drop text = [] := by
  rw [stripEnd_eq_rdropWhile, List.rdropWhile_eq_nil_iff]
  exact hdrop

theorem stripEnd_append (first second : List Char) :
    stripEnd drop (first ++ second) =
      if stripEnd drop second = [] then stripEnd drop first else first ++ stripEnd drop second := by
  induction first with
  | nil =>
      split
      case isTrue hnil => exact hnil
      case isFalse => rfl
  | cons c first ih =>
      rw [List.cons_append, stripEnd_cons, ih]
      split
      case isTrue => rfl
      case isFalse hne => simp [hne]

theorem trimmed_strip (text : List Char) : Trimmed drop (strip drop text) where
  start := by
    intro c hc
    -- What is left starts as the text did before its end was taken off.
    obtain ⟨rest, hrest⟩ := stripEnd_isPrefix drop (stripStart drop text)
    have hfirst : c ∈ (stripStart drop text).head? := by
      rw [← hrest, List.head?_append]
      rw [Option.mem_def, strip] at hc
      simp [hc]
    exact head?_stripStart hfirst
  stop := fun _ hc => getLast?_stripEnd hc

theorem stripStart_of_trimmed {text : List Char} (htrimmed : Trimmed drop text) :
    stripStart drop text = text := by
  cases text with
  | nil => rfl
  | cons c rest => simp [stripStart, htrimmed.start c rfl]

theorem strip_of_trimmed {text : List Char} (htrimmed : Trimmed drop text) :
    strip drop text = text := by
  rw [strip, stripStart_of_trimmed htrimmed, stripEnd_eq_rdropWhile, List.rdropWhile_eq_self_iff]
  intro hne
  simp [htrimmed.stop _ (List.getLast?_eq_some_getLast hne)]

theorem strip_eq_self_iff {text : List Char} : strip drop text = text ↔ Trimmed drop text :=
  ⟨fun h => h ▸ trimmed_strip text, strip_of_trimmed⟩

theorem strip_strip (text : List Char) : strip drop (strip drop text) = strip drop text :=
  strip_of_trimmed (trimmed_strip text)

/-! ## One end after the other -/

/-- The characters that are taken off the start of a text. -/
theorem take_length_sub_stripStart (text : List Char) :
    text.take (text.length - (stripStart drop text).length) = text.takeWhile drop := by
  have hlength : (text.takeWhile drop).length + (stripStart drop text).length = text.length := by
    rw [← List.length_append, stripStart, List.takeWhile_append_dropWhile]
  rw [← hlength, Nat.add_sub_cancel]
  exact (List.prefix_iff_eq_take.mp (List.takeWhile_prefix drop)).symm

/-- What comes off the end of a text does not reach what comes off its start, unless nothing is left
of it. -/
theorem stripEnd_eq (text : List Char) :
    stripEnd drop text =
      if strip drop text = [] then [] else text.takeWhile drop ++ strip drop text := by
  have hfront := stripEnd_eq_nil fun c (hc : c ∈ text.takeWhile drop) => List.mem_takeWhile_imp hc
  have happend : stripEnd drop (text.takeWhile drop ++ stripStart drop text) = _ :=
    stripEnd_append _ _
  rwa [hfront, stripStart, List.takeWhile_append_dropWhile] at happend

theorem stripStart_stripEnd (text : List Char) :
    stripStart drop (stripEnd drop text) = strip drop text := by
  rw [stripEnd_eq]
  split
  case isTrue hnil => exact hnil.symm
  case isFalse =>
    rw [stripStart, List.dropWhile_append_of_pos fun _ => List.mem_takeWhile_imp]
    exact stripStart_of_trimmed (trimmed_strip text)

theorem takeWhile_stripEnd {text : List Char} (hne : strip drop text ≠ []) :
    (stripEnd drop text).takeWhile drop = text.takeWhile drop := by
  have hnone : (strip drop text).takeWhile drop = [] := by
    have hsplit := List.takeWhile_append_dropWhile (p := drop) (l := strip drop text)
    rw [← stripStart, stripStart_of_trimmed (trimmed_strip text)] at hsplit
    exact List.append_left_eq_self.mp hsplit
  rw [stripEnd_eq, if_neg hne, List.takeWhile_append_of_pos fun _ => List.mem_takeWhile_imp, hnone,
    List.append_nil]

theorem toList_trim (text : String) : (trim text).toList = strip isBlank text.toList := by
  simp [trim]

@[simp]
theorem trim_trim (text : String) : trim (trim text) = trim text := by
  rw [trim, toList_trim, strip_strip, trim]

theorem trim_eq_self_iff {text : String} : trim text = text ↔ Trimmed isBlank text.toList := by
  rw [← strip_eq_self_iff, ← toList_trim, String.toList_inj]

end TemplateMessages.Text

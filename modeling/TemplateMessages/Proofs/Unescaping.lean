import TemplateMessages.Placeholder
import TemplateMessages.Proofs.Trimming

/-!
# Doubled percent signs

The text that a message stands for is trimmed and has each doubled percent sign
made single.  A text stands for itself exactly when it is trimmed and has no two
percent signs next to each other.
-/

namespace TemplateMessages.Placeholder

/-- Two percent signs stand next to each other in the text. -/
def Doubled (text : String) : Prop :=
  ['%', '%'] <:+: text.toList

theorem length_halveSigns_le (text : List Char) : (halveSigns text).length ≤ text.length := by
  fun_induction halveSigns text with
  | case1 => simp
  | case2 rest ih => simp only [List.length_cons]; omega
  | case3 c rest hsigns ih => simpa using ih

theorem halveSigns_eq_self_iff (text : List Char) :
    halveSigns text = text ↔ ¬ ['%', '%'] <:+: text := by
  fun_induction halveSigns text with
  | case1 => simp
  | case2 rest ih =>
      have hlength := length_halveSigns_le rest
      have hdoubled : ['%', '%'] <:+: '%' :: '%' :: rest := List.infix_append [] ['%', '%'] rest
      refine iff_of_false (fun heq => ?_) (not_not_intro hdoubled)
      have := congrArg List.length heq
      simp only [List.length_cons] at this
      omega
  | case3 c rest hsigns ih =>
      have hfront : ¬ ['%', '%'] <+: c :: rest := by
        rintro ⟨tail, htail⟩
        obtain ⟨rfl, hrest⟩ := List.cons.inj htail
        exact hsigns tail rfl hrest.symm
      rw [List.infix_cons_iff, or_iff_right hfront, ← ih]
      simp

theorem toList_unescape (text : String) :
    (unescape text).toList = halveSigns (Text.trim text).toList := by
  simp [unescape]

/-- Trimming the text first makes no difference. -/
@[simp]
theorem unescape_trim (text : String) : unescape (Text.trim text) = unescape text := by
  rw [unescape, Text.trim_trim, unescape]

theorem unescape_eq_self_iff {text : String} :
    unescape text = text ↔ Text.trim text = text ∧ ¬ Doubled text := by
  constructor
  · intro heq
    -- Both steps only shorten a text, so neither has taken anything away.
    have hlist : halveSigns (Text.trim text).toList = text.toList := by
      rw [← toList_unescape, heq]
    have hhalf := length_halveSigns_le (Text.trim text).toList
    have hprefix := Text.stripEnd_isPrefix Text.isBlank (Text.stripStart Text.isBlank text.toList)
    have hsuffix : Text.stripStart Text.isBlank text.toList <:+ text.toList :=
      List.dropWhile_suffix _
    rw [hlist, Text.toList_trim] at hhalf
    have hstart := hsuffix.eq_of_length_le (hhalf.trans hprefix.length_le)
    have hstop := hprefix.eq_of_length_le (hsuffix.length_le.trans hhalf)
    have htrim : Text.trim text = text := by
      rw [← String.toList_inj, Text.toList_trim, Text.strip, hstop, hstart]
    rw [htrim] at hlist
    exact ⟨htrim, (halveSigns_eq_self_iff text.toList).mp hlist⟩
  · rintro ⟨htrim, hsingle⟩
    rw [unescape, htrim, (halveSigns_eq_self_iff text.toList).mpr hsingle, String.ofList_toList]

end TemplateMessages.Placeholder

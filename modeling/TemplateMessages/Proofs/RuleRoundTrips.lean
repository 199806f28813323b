import Mathlib.Data.List.Forall2
import TemplateMessages.Proofs.JoinedRules
import TemplateMessages.Proofs.Trimming

/-!
# Rules joined and split again

The joint text of two rules is split from the left, two pipes at a time.  So the
pipes at the start of the second rule are read as pipes at the end of the first
one, a rule without characters is no rule, and what a rule has at its ends to be
trimmed is lost.  The two rules come back exactly when none of this happens, or
when there is nothing but the pipe between them.
-/

namespace TemplateMessages.Plural

variable {text rest first second part : List Char}

/-! ## The alternatives of a joint text -/

/-- All alternatives of a text, the first one among them. -/
def allAlternatives (text : List Char) : List (List Char) :=
  (alternatives text).1 :: (alternatives text).2

theorem alternatives_cons_of_ne {c : Char} (hc : c ≠ '|') (rest : List Char) :
    alternatives (c :: rest) = (c :: (alternatives rest).1, (alternatives rest).2) := by
  rw [alternatives]
  · exact fun _ hpipe => absurd hpipe hc
  · exact hc

/-- A pipe that no other follows ends an alternative. -/
theorem alternatives_pipe (hrest : rest.head? ≠ some '|') :
    alternatives ('|' :: rest) = ([], (alternatives rest).1 :: (alternatives rest).2) := by
  rw [alternatives]
  rintro behind rfl
  exact hrest rfl

/-- A text whose pipes are doubled is read as it is, whatever follows. -/
theorem alternatives_doubled_append (text rest : List Char) :
    alternatives (doubled text ++ rest) =
      (text ++ (alternatives rest).1, (alternatives rest).2) := by
  induction text with
  | nil => rfl
  | cons c behind ih =>
      by_cases hc : c = '|'
      · subst hc
        rw [doubled_pipe, List.cons_append, List.cons_append, alternatives, ih]
        rfl
      · rw [doubled_cons_of_ne hc, List.cons_append, alternatives_cons_of_ne hc, ih]
        rfl

theorem alternatives_doubled (text : List Char) : alternatives (doubled text) = (text, []) := by
  simpa [alternatives] using alternatives_doubled_append text []

/-- The pipes that the second text starts with are read as the end of the first one. -/
theorem alternatives_joint (first second : List Char) :
    alternatives (doubled first ++ '|' :: doubled second) =
      (first ++ second.takeWhile (· == '|'), [second.dropWhile (· == '|')]) := by
  rw [alternatives_doubled_append]
  have hjoint : alternatives ('|' :: doubled second) =
      (second.takeWhile (· == '|'), [second.dropWhile (· == '|')]) := by
    induction second with
    | nil => rfl
    | cons c behind ih =>
        by_cases hc : c = '|'
        · subst hc
          rw [doubled_pipe, alternatives, ih]
          rfl
        · have hhead : (doubled (c :: behind)).head? ≠ some '|' := by
            rw [doubled_cons_of_ne hc]
            simpa using hc
          rw [alternatives_pipe hhead, alternatives_doubled]
          simp [hc]
  rw [hjoint]

/-! ## The rules of a text -/

/-- The characters that are trimmed off the ends of a rule: space, tab, line feed, carriage return,
U+0000 and the vertical tab U+000B. -/
def ruleBlanks : List Char :=
  [' ', '\t', '\n', '\r', '\x00', '\x0b']

theorem isRuleBlank_iff {c : Char} : isRuleBlank c = true ↔ c ∈ ruleBlanks :=
  List.contains_iff_mem

theorem isRuleBlank_eq : isRuleBlank = (ruleBlanks.contains ·) := by
  funext c
  rw [Bool.eq_iff_iff, isRuleBlank_iff, List.contains_iff_mem]

theorem ofPart_eq_ok_iff {rule : String} :
    ofPart part = .ok rule ↔
      rule.toList = Text.strip isRuleBlank part ∧ isInterval rule.toList = false := by
  unfold ofPart
  dsimp only
  constructor
  · intro hpart
    split at hpart
    case isTrue => cases hpart
    case isFalse hinterval =>
      obtain rfl := Except.ok.inj hpart
      exact ⟨String.toList_ofList, by simpa using hinterval⟩
  · rintro ⟨hrule, hinterval⟩
    rw [← hrule, if_neg (ne_true_of_eq_false hinterval), String.ofList_toList]

theorem standardRules_eq_ok_iff {text : String} {rules : List String} :
    standardRules text = .ok rules ↔
      List.Forall₂ (fun part rule => ofPart part = .ok rule) (ruleParts text.toList) rules := by
  rw [standardRules]
  generalize ruleParts text.toList = parts
  induction parts generalizing rules with
  | nil =>
      rw [List.mapM_nil, List.forall₂_nil_left_iff]
      exact ⟨fun hnil => (Except.ok.inj hnil).symm, fun hnil => hnil ▸ rfl⟩
  | cons part parts ih =>
      rw [List.mapM_cons]
      constructor
      · intro hrules
        cases hpart : ofPart part with
        | error =>
            rw [hpart] at hrules
            cases hrules
        | ok rule =>
            cases hparts : parts.mapM ofPart with
            | error =>
                rw [hpart, hparts] at hrules
                cases hrules
            | ok others =>
                rw [hpart, hparts] at hrules
                obtain rfl := Except.ok.inj hrules
                exact .cons hpart (ih.mp hparts)
      · intro hrules
        cases hrules with
        | cons hpart hparts =>
            rw [hpart, ih.mpr hparts]
            rfl

/-- Among other characters an empty alternative is no rule. -/
theorem ruleParts_of_mem {c : Char} (hmem : c ∈ text) (hc : c ≠ '|') :
    ruleParts text =
      ((alternatives text).1 :: (alternatives text).2).filter fun part => !part.isEmpty := by
  have hpipes : (!text.isEmpty && text.all (· == '|')) = false := by
    rw [Bool.and_eq_false_iff]
    right
    rw [List.all_eq_false]
    exact ⟨c, hmem, by simpa using hc⟩
  rw [ruleParts, if_neg (ne_true_of_eq_false hpipes)]

theorem ruleParts_replicate (count : Nat) :
    ruleParts (List.replicate (count + 1) '|') = List.replicate (count + 2) [] := by
  have hpipes : (!(List.replicate (count + 1) '|').isEmpty &&
      (List.replicate (count + 1) '|').all (· == '|')) = true := by
    simp
  rw [ruleParts, if_pos hpipes, List.length_replicate]

theorem mem_doubled {c : Char} : c ∈ doubled text ↔ c ∈ text := by
  induction text with
  | nil => rfl
  | cons first behind ih => by_cases hfirst : first = '|' <;> simp [doubled, hfirst, ih]

theorem length_le_length_doubled (text : List Char) : text.length ≤ (doubled text).length := by
  induction text with
  | nil => exact Nat.le_refl _
  | cons c behind ih =>
      by_cases hc : c = '|' <;> simp [doubled, hc] <;> omega

/-! ## What comes back -/

/-- A rule that is read from itself is trimmed and no interval. -/
theorem ofPart_toList_eq_ok_iff {rule : String} :
    ofPart rule.toList = .ok rule ↔
      Text.Trimmed (ruleBlanks.contains ·) rule.toList ∧ isInterval rule.toList = false := by
  rw [ofPart_eq_ok_iff, eq_comm, Text.strip_eq_self_iff, isRuleBlank_eq]

theorem length_le_of_ofPart {rule : String} (hpart : ofPart part = .ok rule) :
    rule.toList.length ≤ part.length := by
  rw [(ofPart_eq_ok_iff.mp hpart).1]
  exact (Text.stripEnd_isPrefix _ _).length_le.trans (List.dropWhile_suffix _).length_le

/-- Two rules that are read from pipes alone have no characters. -/
theorem eq_nil_of_pipes {rules : List String} (hcount : rules.length = 2)
    (hpipes : ∀ c ∈ doubled first ++ '|' :: doubled second, c = '|')
    (hrules : List.Forall₂ (fun part rule => ofPart part = .ok rule)
      (ruleParts (doubled first ++ '|' :: doubled second)) rules) :
    first = [] ∧ second = [] := by
  have hlength := hrules.length_eq
  rw [List.eq_replicate_of_mem hpipes, List.length_append, List.length_cons, ← Nat.add_assoc,
    ruleParts_replicate, List.length_replicate, hcount] at hlength
  have hfirst := length_le_length_doubled first
  have hsecond := length_le_length_doubled second
  exact ⟨List.length_eq_zero_iff.mp (by omega), List.length_eq_zero_iff.mp (by omega)⟩

/-- Without a pipe at its start the second text keeps all of its own. -/
theorem alternatives_joint_of_head (hsecond : second.head? ≠ some '|') :
    alternatives (doubled first ++ '|' :: doubled second) = (first, [second]) := by
  rw [alternatives_joint]
  cases second with
  | nil => simp
  | cons c behind =>
      have hc : c ≠ '|' := by simpa using hsecond
      simp [hc]

/-- When two rules are left of two alternatives, both alternatives are rules. -/
theorem forall₂_filter_iff {rules : List String} {parts : List (List Char)}
    (hcount : rules.length = parts.length) :
    List.Forall₂ (fun part rule => ofPart part = .ok rule)
        (parts.filter fun part => !part.isEmpty) rules ↔
      (∀ part ∈ parts, part ≠ []) ∧
        List.Forall₂ (fun part rule => ofPart part = .ok rule) parts rules := by
  constructor
  · intro hrules
    have hlength := hrules.length_eq.trans hcount
    have hkept := List.filter_eq_self.mp (List.filter_sublist.eq_of_length hlength)
    rw [List.filter_eq_self.mpr hkept] at hrules
    exact ⟨fun part hpart => by simpa using hkept part hpart, hrules⟩
  · rintro ⟨hkept, hrules⟩
    rwa [List.filter_eq_self.mpr fun part hpart => by simpa using hkept part hpart]

/-- Pipes that move over the joint make the second rule shorter. -/
theorem not_ofPart_dropWhile {rule : String} (hpipe : rule.toList.head? = some '|') :
    ofPart (rule.toList.dropWhile (· == '|')) ≠ .ok rule := by
  intro hpart
  have hlength := length_le_of_ofPart hpart
  obtain ⟨behind, hrule⟩ := List.head?_eq_some_iff.mp hpipe
  have hshort := (List.dropWhile_suffix (· == '|') (l := behind)).length_le
  rw [hrule, List.dropWhile_cons_of_pos (by rfl), List.length_cons] at hlength
  omega

/-- Among other characters the two rules come back when they stand at the joint as they are: neither
is empty, no pipe moves over the joint, and each is read from itself. -/
theorem forall₂_ruleParts_joint {singular plural : String} {c : Char}
    (hmem : c ∈ doubled singular.toList ++ '|' :: doubled plural.toList) (hc : c ≠ '|') :
    List.Forall₂ (fun part rule => ofPart part = .ok rule)
        (ruleParts (doubled singular.toList ++ '|' :: doubled plural.toList)) [singular, plural] ↔
      (singular ≠ "" ∧ plural ≠ "" ∧ plural.toList.head? ≠ some '|') ∧
        ofPart singular.toList = .ok singular ∧ ofPart plural.toList = .ok plural := by
  rw [ruleParts_of_mem hmem hc]
  by_cases hhead : plural.toList.head? = some '|'
  · rw [alternatives_joint, forall₂_filter_iff rfl]
    simp [hhead, not_ofPart_dropWhile hhead]
  · rw [alternatives_joint_of_head hhead, forall₂_filter_iff rfl]
    simp [hhead, and_assoc]

/-- Two rules that are joined come back when the joint text is split exactly when neither has
anything at its ends that is trimmed or is an interval, and both are empty or neither is and the
second one starts with no pipe. -/
theorem standardRules_join_eq_iff (singular plural : String) :
    standardRules (join singular plural) = .ok [singular, plural] ↔
      (∀ rule ∈ [singular, plural],
        Text.Trimmed (ruleBlanks.contains ·) rule.toList ∧ isInterval rule.toList = false) ∧
      (singular = "" ∧ plural = "" ∨
        singular ≠ "" ∧ plural ≠ "" ∧ plural.toList.head? ≠ some '|') := by
  have hkept : (∀ rule ∈ [singular, plural],
      Text.Trimmed (ruleBlanks.contains ·) rule.toList ∧ isInterval rule.toList = false) ↔
        ofPart singular.toList = .ok singular ∧ ofPart plural.toList = .ok plural := by
    simp [ofPart_toList_eq_ok_iff]
  rw [standardRules_eq_ok_iff, toList_join, hkept]
  by_cases hpipes : ∀ c ∈ doubled singular.toList ++ '|' :: doubled plural.toList, c = '|'
  · constructor
    · intro hrules
      obtain ⟨hsingular, hplural⟩ := eq_nil_of_pipes rfl hpipes hrules
      obtain rfl := String.toList_eq_nil_iff.mp hsingular
      obtain rfl := String.toList_eq_nil_iff.mp hplural
      exact ⟨⟨rfl, rfl⟩, .inl ⟨rfl, rfl⟩⟩
    · rintro ⟨-, ⟨rfl, rfl⟩ | ⟨-, hplural, hhead⟩⟩
      · exact .cons rfl (.cons rfl .nil)
      · -- The first character of the second rule is a pipe like all others.
        obtain ⟨c, behind, hrule⟩ := List.exists_cons_of_ne_nil (mt String.toList_eq_nil_iff.mp hplural)
        have hmem : c ∈ doubled plural.toList := mem_doubled.mpr (hrule ▸ List.mem_cons_self)
        have hc := hpipes c (List.mem_append_right _ (List.mem_cons_of_mem _ hmem))
        rw [hrule, hc] at hhead
        exact absurd rfl hhead
  · push Not at hpipes
    obtain ⟨c, hmem, hc⟩ := hpipes
    have hsome : ¬ (singular = "" ∧ plural = "") := by
      rintro ⟨rfl, rfl⟩
      exact hc (List.mem_singleton.mp hmem)
    rw [forall₂_ruleParts_joint hmem hc, or_iff_right hsome, and_comm]

end TemplateMessages.Plural

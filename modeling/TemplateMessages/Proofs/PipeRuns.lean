import Mathlib.Data.List.DropRight
import Mathlib.Data.List.ReduceOption
import Mathlib.Data.List.SplitBy
import TemplateMessages.Proofs.IntervalPattern
import TemplateMessages.Proofs.RuleRoundTrips
import TemplateMessages.Proofs.Separators

/-!
# Runs of pipes

A text is read run by run: of a run of pipes every two are a pipe of the text, and
the one that an odd run has left over separates what is in front of it from what is
behind it.  The rules are the parts between the separators that are not empty,
trimmed.  The scan takes two pipes at a time from the left and so comes to the end of
a run of even length, or to its last pipe, which no other follows.
-/

namespace TemplateMessages.Plural

/-! ## The reading by runs -/

/-- What a run of equal characters is read as; a separator is `none`. -/
def readRun (run : List Char) : List (Option Char) :=
  if run.head? = some '|' then
    List.replicate (run.length / 2) (some '|') ++ List.replicate (run.length % 2) none
  else run.map some

def reading (text : List Char) : List (Option Char) :=
  (text.splitBy (· == ·)).flatMap readRun

/-- The parts between the separators. -/
def parts (marks : List (Option Char)) : List (List Char) :=
  (marks.splitOn none).map List.reduceOption

/-- A part without the characters at its ends that a rule loses. -/
def trimmed (part : List Char) : String :=
  String.ofList ((part.dropWhile (ruleBlanks.contains ·)).rdropWhile (ruleBlanks.contains ·))

/-- The rules of a text in the reading by runs: an empty part is none. -/
def rulesByRuns (text : String) : List String :=
  ((parts (reading text.toList)).filter fun part => part ≠ []).map trimmed

/-- A text of one or more pipes and nothing else. -/
def OnlyPipes (text : String) : Prop :=
  text ≠ "" ∧ ∀ c ∈ text.toList, c = '|'

-- The instance that goes through all characters instead does not evaluate.
instance (text : String) : Decidable (OnlyPipes text) :=
  @instDecidableAnd _ _ _ (List.decidableBAll (· = '|') text.toList)

variable {rest : List Char} {c : Char}

/-- A text is taken apart into its runs of equal characters. -/
theorem induction_on_runs {motive : List Char → Prop} (nil : motive [])
    (run : ∀ c count rest, rest.head? ≠ some c → motive rest →
      motive (List.replicate (count + 1) c ++ rest))
    (text : List Char) : motive text := by
  induction hlength : text.length using Nat.strong_induction_on generalizing text with
  | _ length ih =>
      cases text with
      | nil => exact nil
      | cons c behind =>
          have hsplit : behind.takeWhile (· == c) ++ behind.dropWhile (· == c) = behind :=
            List.takeWhile_append_dropWhile
          have hrun : behind.takeWhile (· == c) =
              List.replicate (behind.takeWhile (· == c)).length c :=
            List.eq_replicate_iff.mpr ⟨rfl, fun other hother =>
              eq_of_beq (List.mem_takeWhile_imp (p := (· == c)) hother)⟩
          rw [← hsplit, hrun, ← List.cons_append, ← List.replicate_succ]
          refine run c _ _ ?_ (ih _ ?_ _ rfl)
          · intro hhead
            have hnot := List.head?_dropWhile_not (· == c) behind
            rw [hhead] at hnot
            simp at hnot
          · rw [← hlength, List.length_cons]
            exact Nat.lt_succ_of_le (List.dropWhile_suffix _).length_le

/-- A run is read by itself. -/
theorem reading_run (count : Nat) (hrest : rest.head? ≠ some c) :
    reading (List.replicate (count + 1) c ++ rest) =
      readRun (List.replicate (count + 1) c) ++ reading rest := by
  have hborder : ∀ x ∈ (List.replicate (count + 1) c).getLast?, ∀ y ∈ rest.head?,
      (x == y) = false := by
    intro x hx y hy
    obtain rfl : x = c := List.eq_of_mem_replicate (List.mem_of_getLast? hx)
    rw [beq_eq_false_iff_ne]
    rintro rfl
    exact hrest hy
  have hone : (List.replicate (count + 1) c).splitBy (· == ·) = [List.replicate (count + 1) c] :=
    List.splitBy_of_isChain (by simp) (List.isChain_replicate_of_rel _ (beq_self_eq_true c))
  rw [reading, List.splitBy_append hborder, hone, List.flatMap_append, List.flatMap_singleton,
    reading]

theorem readRun_pipes (count : Nat) :
    readRun (List.replicate (count + 1) '|') =
      (List.replicate ((count + 1) / 2) '|').map some ++ List.replicate ((count + 1) % 2) none := by
  have hhead : (List.replicate (count + 1) '|').head? = some '|' := rfl
  rw [readRun, if_pos hhead, List.length_replicate, List.map_replicate]

theorem readRun_of_ne (hc : c ≠ '|') (count : Nat) :
    readRun (List.replicate (count + 1) c) = (List.replicate (count + 1) c).map some := by
  rw [readRun, if_neg (by simpa [List.replicate_succ] using hc)]

/-! ## Parts -/

theorem parts_append (front : List Char) (marks : List (Option Char)) :
    parts (front.map some ++ marks) = (parts marks).modifyHead (front ++ ·) := by
  rw [parts, splitOn_append_of_front (by simp), parts]
  cases marks.splitOn none with
  | nil => rfl
  | cons first others => simp [List.reduceOption, List.filterMap_map]

theorem parts_separator (marks : List (Option Char)) : parts (none :: marks) = [] :: parts marks := by
  rw [parts, List.splitOn_cons_eq_if_modifyHead]
  rfl

/-- Pipes that stand in pairs, and other characters, belong to the first alternative. -/
theorem allAlternatives_doubled_append (front rest : List Char) :
    allAlternatives (doubled front ++ rest) = (allAlternatives rest).modifyHead (front ++ ·) := by
  rw [allAlternatives, alternatives_doubled_append]
  rfl

theorem allAlternatives_pipe (hrest : rest.head? ≠ some '|') :
    allAlternatives ('|' :: rest) = [] :: allAlternatives rest := by
  rw [allAlternatives, alternatives_pipe hrest]
  rfl

theorem doubled_of_notMem {text : List Char} (hfree : '|' ∉ text) : doubled text = text := by
  induction text with
  | nil => rfl
  | cons c rest ih =>
      rw [List.mem_cons, not_or] at hfree
      rw [doubled_cons_of_ne (Ne.symm hfree.1), ih hfree.2]

theorem doubled_pipes (count : Nat) :
    doubled (List.replicate count '|') = List.replicate (2 * count) '|' := by
  induction count with
  | zero => rfl
  | succ count ih =>
      rw [List.replicate_succ, doubled_pipe, ih, Nat.mul_succ, List.replicate_succ,
        List.replicate_succ]

/-- A run of pipes is made of pairs, and of one more pipe when its length is odd. -/
theorem pipes_eq (count : Nat) :
    List.replicate count '|' =
      doubled (List.replicate (count / 2) '|') ++ List.replicate (count % 2) '|' := by
  rw [doubled_pipes, List.replicate_append_replicate, Nat.div_add_mod]

/-- The parts of the reading are the alternatives that the scan finds. -/
theorem parts_reading (text : List Char) : parts (reading text) = allAlternatives text := by
  induction text using induction_on_runs with
  | nil => rfl
  | run c count rest hrest ih =>
      rw [reading_run count hrest]
      by_cases hc : c = '|'
      · subst hc
        rw [readRun_pipes, List.append_assoc, parts_append, pipes_eq (count + 1), List.append_assoc,
          allAlternatives_doubled_append]
        rcases Nat.mod_two_eq_zero_or_one (count + 1) with hparity | hparity
        · rw [hparity, List.replicate_zero, List.replicate_zero, List.nil_append, List.nil_append, ih]
        · rw [hparity, List.replicate_one, List.replicate_one, List.singleton_append,
            List.singleton_append, parts_separator, allAlternatives_pipe hrest, ih]
      · have hfree : '|' ∉ List.replicate (count + 1) c :=
          fun hmem => hc (List.eq_of_mem_replicate hmem).symm
        rw [readRun_of_ne hc, parts_append, ih, ← allAlternatives_doubled_append,
          doubled_of_notMem hfree]

/-! ## Rules -/

theorem trimmed_eq (part : List Char) :
    trimmed part = String.ofList (Text.strip isRuleBlank part) := by
  rw [trimmed, isRuleBlank_eq, Text.strip, Text.stripEnd_eq_rdropWhile, Text.stripStart]

theorem ruleParts_of_not_onlyPipes {text : String} (hother : ¬ OnlyPipes text) :
    ruleParts text.toList = (parts (reading text.toList)).filter fun part => part ≠ [] := by
  have hparts : ruleParts text.toList =
      (allAlternatives text.toList).filter fun part => !part.isEmpty := by
    by_cases hempty : text = ""
    · subst hempty
      rfl
    · have hmem : ∃ c ∈ text.toList, c ≠ '|' := by
        by_contra hpipes
        push Not at hpipes
        exact hother ⟨hempty, hpipes⟩
      obtain ⟨c, hmem, hc⟩ := hmem
      exact ruleParts_of_mem hmem hc
  rw [hparts, parts_reading]
  refine List.filter_congr fun part _ => ?_
  cases part <;> rfl

/-- Parts are rules when none of them starts with an interval, and are refused otherwise. -/
theorem mapM_ofPart (found : List (List Char)) :
    found.mapM ofPart =
      if ∃ rule ∈ found.map trimmed, IsIntervalRule rule then .error .intervalRule
      else .ok (found.map trimmed) := by
  induction found with
  | nil => rfl
  | cons part others ih =>
      have hpart : ofPart part =
          if IsIntervalRule (trimmed part) then .error .intervalRule else .ok (trimmed part) := by
        simp only [ofPart, ← isInterval_iff, trimmed_eq, String.toList_ofList]
      rw [List.mapM_cons, hpart, ih]
      simp only [List.map_cons, List.mem_cons, exists_eq_or_imp]
      by_cases hfirst : IsIntervalRule (trimmed part)
      · simp only [hfirst, true_or, if_true]
        rfl
      · simp only [hfirst, false_or, if_false]
        split <;> rfl

/-- Among other characters than pipes the rules of a text are those of the reading by runs, and they
are refused when one of them starts with an interval.  A text has a singular and a plural exactly when
it has two rules and neither is an interval. -/
theorem standardRules_eq_rulesByRuns (text : String) (hother : ¬ OnlyPipes text) :
    (standardRules text =
      if ∃ rule ∈ rulesByRuns text, IsIntervalRule rule then .error .intervalRule
      else .ok (rulesByRuns text)) ∧
    ∀ singular plural, split text = .ok (singular, plural) ↔
      rulesByRuns text = [singular, plural] ∧ ∀ rule ∈ rulesByRuns text, ¬ IsIntervalRule rule := by
  have hrules : standardRules text =
      if ∃ rule ∈ rulesByRuns text, IsIntervalRule rule then .error .intervalRule
      else .ok (rulesByRuns text) := by
    rw [standardRules, ruleParts_of_not_onlyPipes hother, mapM_ofPart]
    rfl
  refine ⟨hrules, fun singular plural => ?_⟩
  unfold split
  rw [hrules]
  by_cases hinterval : ∃ rule ∈ rulesByRuns text, IsIntervalRule rule
  · rw [if_pos hinterval]
    refine iff_of_false (fun hsplit => by cases hsplit) ?_
    rintro ⟨-, hnone⟩
    obtain ⟨rule, hmem, hrule⟩ := hinterval
    exact hnone rule hmem hrule
  · have hnone : ∀ rule ∈ rulesByRuns text, ¬ IsIntervalRule rule := by
      intro rule hmem hrule
      exact hinterval ⟨rule, hmem, hrule⟩
    rw [if_neg hinterval, and_iff_left hnone]
    simp only [bind, Except.bind]
    split
    case h_1 first second hfound => simp [hfound, pure, Except.pure]
    case h_2 hcount => exact iff_of_false (fun hsplit => by cases hsplit) (hcount singular plural)

/-- Runs of one and of three pipes, and pipes at both ends. -/
theorem standardRules_eq_rulesByRuns_runs :
    ¬ OnlyPipes "|one |||many|" ∧ standardRules "|one |||many|" = .ok ["one |", "many"] ∧
      split "|one |||many|" = .ok ("one |", "many") := by
  have hother : ¬ OnlyPipes "|one |||many|" := by decide +kernel
  have hread : rulesByRuns "|one |||many|" = ["one |", "many"] := by decide +kernel
  obtain ⟨hrules, hsplit⟩ := standardRules_eq_rulesByRuns "|one |||many|" hother
  have hnone : ∀ rule ∈ rulesByRuns "|one |||many|", ¬ IsIntervalRule rule := by
    rw [hread]
    decide +kernel
  refine ⟨hother, ?_, (hsplit _ _).mpr ⟨hread, hnone⟩⟩
  rw [hrules, if_neg (by simpa using hnone), hread]

end TemplateMessages.Plural

import TemplateMessages.Plural

/-!
# Joined rules

Two rules are joined by a pipe, and a pipe inside a rule is doubled.  A run of
pipes around the joint does not tell which of them belong to which rule, so the
joint text is that of every pair that divides the same run.  Nothing else is
lost: pairs of one joint text differ by pipes that stand at the end of the one
rule or at the start of the other.
-/

namespace TemplateMessages.Plural

/-- The characters of a rule with its pipes doubled. -/
def doubled : List Char → List Char
  | [] => []
  | c :: rest => if c = '|' then '|' :: '|' :: doubled rest else c :: doubled rest

theorem doubled_pipe (rest : List Char) : doubled ('|' :: rest) = '|' :: '|' :: doubled rest := rfl

theorem doubled_cons_of_ne {c : Char} (hc : c ≠ '|') (rest : List Char) :
    doubled (c :: rest) = c :: doubled rest := by
  rw [doubled, if_neg hc]

/-- A doubled text starts as the text does. -/
theorem doubled_cons (c : Char) (rest : List Char) :
    doubled (c :: rest) = c :: if c = '|' then '|' :: doubled rest else doubled rest := by
  by_cases hc : c = '|' <;> simp [doubled, hc]

theorem doubled_append (first second : List Char) :
    doubled (first ++ second) = doubled first ++ doubled second := by
  induction first with
  | nil => rfl
  | cons c rest ih =>
      by_cases hc : c = '|'
      · rw [hc, List.cons_append, doubled_pipe, doubled_pipe, ih]
        rfl
      · rw [List.cons_append, doubled_cons_of_ne hc, doubled_cons_of_ne hc, ih]
        rfl

/-- A text whose doubled form starts with a pipe starts with a pipe itself. -/
theorem exists_of_doubled_eq_pipe {text rest : List Char} (h : doubled text = '|' :: rest) :
    ∃ behind, text = '|' :: behind ∧ rest = '|' :: doubled behind := by
  cases text with
  | nil => simp [doubled] at h
  | cons c behind =>
      by_cases hc : c = '|'
      · subst hc
        rw [doubled_pipe] at h
        exact ⟨behind, rfl, (List.cons.inj h).2.symm⟩
      · rw [doubled_cons_of_ne hc] at h
        exact absurd (List.cons.inj h).1 hc

theorem doubled_injective {first second : List Char} (h : doubled first = doubled second) :
    first = second := by
  induction first generalizing second with
  | nil =>
      cases second with
      | nil => rfl
      | cons c rest => by_cases hc : c = '|' <;> simp [doubled, hc] at h
  | cons c rest ih =>
      by_cases hc : c = '|'
      · subst hc
        obtain ⟨behind, rfl, hbehind⟩ := exists_of_doubled_eq_pipe h.symm
        rw [ih (List.cons.inj hbehind).2]
      · rw [doubled_cons_of_ne hc] at h
        cases second with
        | nil => simp [doubled] at h
        | cons other others =>
            rw [doubled_cons] at h
            obtain ⟨rfl, hrest⟩ := List.cons.inj h
            rw [if_neg hc] at hrest
            rw [ih hrest]

/-! ## Pipes around the joint -/

/-- Pipes move from the start of the second rule to the end of the first. -/
def PipesMoved (first second first' second' : List Char) : Prop :=
  ∃ count, first' = first ++ List.replicate count '|' ∧
    second = List.replicate count '|' ++ second'

/-- A pipe beside the joint may stand on either side of it. -/
theorem doubled_pipe_joint (first second : List Char) :
    doubled (first ++ ['|']) ++ '|' :: doubled second =
      doubled first ++ '|' :: doubled ('|' :: second) := by
  rw [doubled_append, doubled_pipe, List.append_assoc]
  rfl

theorem joint_eq_of_pipesMoved {first second first' second' : List Char}
    (h : PipesMoved first second first' second') :
    doubled first ++ '|' :: doubled second = doubled first' ++ '|' :: doubled second' := by
  obtain ⟨count, rfl, rfl⟩ := h
  induction count generalizing first with
  | zero => simp
  | succ count ih =>
      rw [List.replicate_succ, List.cons_append, ← doubled_pipe_joint, ih, List.append_assoc,
        List.singleton_append]

/-- A joint at the start of a text comes before the joint of another pair by pipes only. -/
theorem pipesMoved_of_joint_eq {second first' second' : List Char}
    (h : '|' :: doubled second = doubled first' ++ '|' :: doubled second') :
    PipesMoved [] second first' second' := by
  induction first' generalizing second with
  | nil => exact ⟨0, rfl, doubled_injective (List.cons.inj h).2⟩
  | cons c rest ih =>
      by_cases hc : c = '|'
      · subst hc
        obtain ⟨behind, rfl, hbehind⟩ := exists_of_doubled_eq_pipe (List.cons.inj h).2
        obtain ⟨count, hrest, hcount⟩ := ih hbehind.symm
        exact ⟨count + 1, congrArg (List.cons '|') hrest, congrArg (List.cons '|') hcount⟩
      · rw [doubled_cons_of_ne hc] at h
        exact absurd (List.cons.inj h).1.symm hc

/-- Pairs of one joint text: pipes have moved over the joint, one way or the other. -/
theorem joint_eq_iff {first second first' second' : List Char} :
    doubled first ++ '|' :: doubled second = doubled first' ++ '|' :: doubled second' ↔
      PipesMoved first second first' second' ∨ PipesMoved first' second' first second := by
  constructor
  · intro h
    induction first generalizing first' with
    | nil => exact .inl (pipesMoved_of_joint_eq h)
    | cons c rest ih =>
        cases first' with
        | nil => exact .inr (pipesMoved_of_joint_eq h.symm)
        | cons other others =>
            rw [doubled_cons, doubled_cons, List.cons_append, List.cons_append] at h
            obtain ⟨rfl, htail⟩ := List.cons.inj h
            have hrest : doubled rest ++ '|' :: doubled second =
                doubled others ++ '|' :: doubled second' := by
              by_cases hc : c = '|' <;> simpa [hc] using htail
            refine (ih hrest).imp ?_ ?_ <;> rintro ⟨count, hfirst, hsecond⟩
            · exact ⟨count, congrArg (List.cons c) hfirst, hsecond⟩
            · exact ⟨count, congrArg (List.cons c) hfirst, hsecond⟩
  · rintro (h | h)
    · exact joint_eq_of_pipesMoved h
    · exact (joint_eq_of_pipesMoved h).symm

theorem toList_escape (rule : String) : (escape rule).toList = doubled rule.toList := by
  have hlist : ∀ chars : List Char,
      (chars.flatMap fun c => if c = '|' then ['|', '|'] else [c]) = doubled chars := by
    intro chars
    induction chars with
    | nil => rfl
    | cons c rest ih => by_cases hc : c = '|' <;> simp [doubled, hc, ih]
  rw [escape, String.toList_ofList, hlist]

theorem toList_join (singular plural : String) :
    (join singular plural).toList = doubled singular.toList ++ '|' :: doubled plural.toList := by
  rw [join, String.toList_append, String.toList_append, toList_escape, toList_escape,
    List.append_assoc]
  rfl

/-- Two pairs of rules have one joint text when pipes have moved over the joint, and only then. -/
theorem join_eq_join_iff {singular plural singular' plural' : String} :
    join singular plural = join singular' plural' ↔
      PipesMoved singular.toList plural.toList singular'.toList plural'.toList ∨
        PipesMoved singular'.toList plural'.toList singular.toList plural.toList := by
  rw [← String.toList_inj, toList_join, toList_join, joint_eq_iff]

end TemplateMessages.Plural

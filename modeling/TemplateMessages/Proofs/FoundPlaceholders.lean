import TemplateMessages.Proofs.PluralPlaceholders
import TemplateMessages.Proofs.Separators

/-!
# The placeholders that are found

A placeholder is a name between two percent signs, of which the first one stands
behind no other.  The search takes the leftmost one and goes on behind its second
sign.  The walk over the text finds the placeholders of this search: at each
character it knows whether the one in front is a sign, and the name that a sign
opens reaches up to the next one.
-/

namespace TemplateMessages.Placeholder

/-- The placeholder of a name stands at a position of the text. -/
structure StandsAt (text : List Char) (start : Nat) (name : List Char) : Prop where
  nonempty : name ≠ []
  signFree : '%' ∉ name
  token_isPrefix : '%' :: (name ++ ['%']) <+: text.drop start
  notBehindSign : (text.take start).getLast? ≠ some '%'

/-- The names that the search finds from a position on. -/
inductive Finds (text : List Char) : Nat → List (List Char) → Prop
  | none {position : Nat} :
      (∀ start name, position ≤ start → ¬ StandsAt text start name) → Finds text position []
  | next {position start : Nat} {name : List Char} {names : List (List Char)} :
      position ≤ start → StandsAt text start name →
      (∀ earlier other, position ≤ earlier → earlier < start → ¬ StandsAt text earlier other) →
      Finds text (start + name.length + 2) names → Finds text position (name :: names)

variable {text front rest name : List Char} {position start : Nat}

/-! ## The search -/

theorem name?_append_sign (hfree : '%' ∉ name) (rest : List Char) :
    name? (name ++ '%' :: rest) = if name = [] then none else some name := by
  have hkeep : ∀ c ∈ name, (c != '%') = true := by
    intro c hc
    rw [bne_iff_ne]
    rintro rfl
    exact hfree hc
  rw [name?, takeWhile_append_stop hkeep (by decide)]
  simp

theorem name?_eq_some_iff :
    name? text = some name ↔ name ≠ [] ∧ '%' ∉ name ∧ name ++ ['%'] <+: text := by
  constructor
  · intro hname
    obtain ⟨front, rest, rfl, hfree⟩ := List.eq_append_cons_of_mem (mem_of_name? hname)
    rw [name?_append_sign hfree] at hname
    split at hname
    case isTrue => cases hname
    case isFalse hne =>
      obtain rfl := Option.some.inj hname
      exact ⟨hne, hfree, rest, by simp⟩
  · rintro ⟨hne, hfree, rest, rfl⟩
    rw [List.append_assoc, List.singleton_append, name?_append_sign hfree, if_neg hne]

/-- One placeholder at most stands at a position. -/
theorem StandsAt.name_eq {other : List Char} (hname : StandsAt text start name)
    (hother : StandsAt text start other) : name = other := by
  have hfirst := hname.token_isPrefix
  have hsecond := hother.token_isPrefix
  cases hbehind : text.drop start with
  | nil => simp [hbehind] at hfirst
  | cons c rest =>
      rw [hbehind, List.cons_prefix_cons] at hfirst hsecond
      have hleft := name?_eq_some_iff.mpr ⟨hname.nonempty, hname.signFree, hfirst.2⟩
      have hright := name?_eq_some_iff.mpr ⟨hother.nonempty, hother.signFree, hsecond.2⟩
      exact Option.some.inj (hleft.symm.trans hright)

/-- The search has one result. -/
theorem Finds.unique {names others : List (List Char)} (hnames : Finds text position names)
    (hothers : Finds text position others) : names = others := by
  induction hnames generalizing others with
  | none hnone =>
      cases hothers with
      | none => rfl
      | next hle hat => exact absurd hat (hnone _ _ hle)
  | @next position start name names hle hat hleft _ ih =>
      cases hothers with
      | none hnone => exact absurd hat (hnone _ _ hle)
      | @next _ start' name' _ hle' hat' hleft' hrest' =>
          obtain rfl : start = start' := by
            rcases Nat.lt_trichotomy start start' with hlt | heq | hgt
            · exact absurd hat (hleft' _ _ hle hlt)
            · exact heq
            · exact absurd hat' (hleft _ _ hle' hgt)
          obtain rfl := hat.name_eq hat'
          rw [ih hrest']

/-- A position where no placeholder stands is passed over. -/
theorem Finds.of_not_standsAt {names : List (List Char)}
    (hnot : ∀ name, ¬ StandsAt text position name) (hnames : Finds text (position + 1) names) :
    Finds text position names := by
  have hbehind : ∀ start name, position ≤ start → StandsAt text start name →
      position + 1 ≤ start := by
    intro start name hle hat
    refine Nat.lt_of_le_of_ne hle ?_
    rintro rfl
    exact hnot name hat
  cases hnames with
  | none hnone => exact .none fun start name hle hat => hnone start name (hbehind _ _ hle hat) hat
  | next hle hat hleft hrest =>
      refine .next (Nat.le_of_succ_le hle) hat ?_ hrest
      intro earlier other hearlier hlt hstands
      exact hleft earlier other (hbehind _ _ hearlier hstands) hlt hstands

/-- What is found stands in the text. -/
theorem Finds.exists_standsAt {names : List (List Char)} (hnames : Finds text position names)
    (hmem : name ∈ names) : ∃ start, StandsAt text start name := by
  induction hnames with
  | none => exact absurd hmem List.not_mem_nil
  | next _ hat _ _ ih =>
      rcases List.mem_cons.mp hmem with rfl | hmem
      · exact ⟨_, hat⟩
      · exact ih hmem

/-! ## The walk -/

/-- Behind a front that ends in no sign, a sign opens the placeholder of the name behind it. -/
theorem standsAt_length_iff {c : Char} :
    StandsAt (front ++ c :: rest) front.length name ↔
      c = '%' ∧ front.getLast? ≠ some '%' ∧ name? rest = some name := by
  rw [name?_eq_some_iff]
  constructor
  · rintro ⟨hne, hfree, htoken, hfront⟩
    rw [List.drop_left, List.cons_prefix_cons] at htoken
    rw [List.take_left] at hfront
    exact ⟨htoken.1.symm, hfront, hne, hfree, htoken.2⟩
  · rintro ⟨rfl, hfront, hne, hfree, htoken⟩
    refine ⟨hne, hfree, ?_, ?_⟩
    · rw [List.drop_left, List.cons_prefix_cons]
      exact ⟨rfl, htoken⟩
    · rwa [List.take_left]

/-- The walk behind a front finds what the search finds from there.  The induction is on the rest of
the text; the front is what has been walked over. -/
theorem finds_namesFrom {afterSign : Bool} {skip : Nat} (front : List Char)
    (hsign : afterSign = (front.getLast? == some '%')) (hskip : skip ≤ rest.length) :
    Finds (front ++ rest) (front.length + skip) (namesFrom afterSign skip rest) := by
  induction rest generalizing front afterSign skip with
  | nil =>
      refine .none fun start name hle hat => ?_
      have hend : (front ++ []).length ≤ start := by
        rw [List.append_nil]
        exact Nat.le_trans (Nat.le_add_right _ _) hle
      have htoken := hat.token_isPrefix
      rw [List.drop_eq_nil_of_le hend, List.prefix_nil] at htoken
      cases htoken
  | cons c rest ih =>
      have htext : front ++ c :: rest = front ++ [c] ++ rest := by simp
      have hlast : (c == '%') = ((front ++ [c]).getLast? == some '%') := by simp
      have hbehind : ∀ {skip : Nat}, skip ≤ rest.length →
          Finds (front ++ c :: rest) (front.length + 1 + skip) (namesFrom (c == '%') skip rest) := by
        intro skip hskip
        have hrest := ih (front ++ [c]) hlast hskip
        rwa [← htext, List.length_append, List.length_singleton] at hrest
      cases skip with
      | succ skip =>
          have hrest := hbehind (Nat.le_of_succ_le_succ hskip)
          rwa [Nat.add_right_comm] at hrest
      | zero =>
          by_cases hopens : c = '%' ∧ afterSign = false
          · obtain ⟨rfl, rfl⟩ := hopens
            have hfront : front.getLast? ≠ some '%' := by simpa using hsign.symm
            rw [namesFrom_sign]
            cases hname : name? rest with
            | some name =>
                have hat : StandsAt (front ++ '%' :: rest) front.length name :=
                  standsAt_length_iff.mpr ⟨rfl, hfront, hname⟩
                refine .next (Nat.le_refl _) hat ?_ ?_
                · intro earlier other hle hlt
                  exact absurd hle (Nat.not_le_of_lt hlt)
                · have hrest := hbehind (length_lt_of_name? hname)
                  rwa [show front.length + 1 + (name.length + 1) = front.length + name.length + 2 by
                    omega] at hrest
            | none =>
                refine .of_not_standsAt (fun name hat => ?_) (hbehind (Nat.zero_le _))
                have hsome := (standsAt_length_iff.mp hat).2.2
                rw [hname] at hsome
                cases hsome
          · rw [namesFrom, if_neg hopens]
            refine .of_not_standsAt (fun name hat => ?_) (hbehind (Nat.zero_le _))
            obtain ⟨hc, hfront, -⟩ := standsAt_length_iff.mp hat
            exact hopens ⟨hc, by simpa [hsign] using hfront⟩

theorem finds_iff (text : String) (found : List (List Char)) :
    Finds text.toList 0 found ↔ found = (names text).map String.toList := by
  have hnames : (names text).map String.toList = namesFrom false 0 text.toList := by
    simp [names]
  have hfinds : Finds text.toList 0 (namesFrom false 0 text.toList) :=
    finds_namesFrom [] rfl (Nat.zero_le _)
  rw [hnames]
  constructor
  · intro hfound
    exact hfound.unique hfinds
  · rintro rfl
    exact hfinds

end TemplateMessages.Placeholder

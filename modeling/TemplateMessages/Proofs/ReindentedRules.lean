import TemplateMessages.Proofs.MatchingTokens
import TemplateMessages.Proofs.Reindentation
import TemplateMessages.Proofs.RuleRoundTrips

/-!
# Rules of reindented texts

The rules of a text see a run of indentation as a whole: it stands inside one
alternative, it is skipped between the bounds of an interval, and it is trimmed at
the ends of a rule.  So two reindented texts have as many rules, of which the same
ones name an interval, and each rule of one is the rule of the other reindented.
-/

namespace TemplateMessages

namespace Plural

open Text (Reindented Respaced isIndent)

variable {text text' : List Char}

/-! ## Intervals -/

theorem isRuleBlank_of_isIndent {c : Char} (hindent : isIndent c = true) :
    isRuleBlank c = true := by
  rcases Text.isIndent_iff.mp hindent with rfl | rfl | rfl | rfl <;> decide

theorem isSetChar_of_isIndent {c : Char} (hindent : isIndent c = true) : isSetChar c = true := by
  simp [isSetChar, Text.isBlank_of_isIndent hindent]

theorem isDecimalDigit_of_isIndent {c : Char} (hindent : isIndent c = true) :
    Text.isDecimalDigit c = false := by
  rcases Text.isIndent_iff.mp hindent with rfl | rfl | rfl | rfl <;> decide

theorem skipBlanks_reindented (htext : Reindented text text') :
    Reindented (skipBlanks text) (skipBlanks text') :=
  htext.dropWhile fun _ => Text.isBlank_of_isIndent

/-- A word that stands in front of both texts, or of neither. -/
theorem isPrefixOf?_reindented (word : List Char) (hword : ∀ c ∈ word, isIndent c = false)
    (htext : Reindented text text') :
    Option.Rel Reindented (word.isPrefixOf? text) (word.isPrefixOf? text') := by
  induction word generalizing text text' with
  | nil => exact .some htext
  | cons c word ih =>
      obtain ⟨hc, hword⟩ := List.forall_mem_cons.mp hword
      rcases htext.head_cases hc with ⟨rest, rest', rfl, rfl, hrest⟩ | ⟨hhead, hhead'⟩
      · simpa [List.isPrefixOf?] using ih hword hrest
      · have hnone : ∀ other : List Char, other.head? ≠ some c →
            (c :: word).isPrefixOf? other = none := by
          intro other hother
          cases other with
          | nil => rfl
          | cons first rest =>
              have hne : c ≠ first := by
                rintro rfl
                exact hother rfl
              simp [List.isPrefixOf?, hne]
        rw [hnone _ hhead, hnone _ hhead']
        exact .none

theorem unsigned_reindented (htext : Reindented text text') :
    Reindented (if text.head? == some '-' then text.tail else text)
      (if text'.head? == some '-' then text'.tail else text') := by
  rcases htext.head_cases (c := '-') (by decide) with ⟨_, _, rfl, rfl, hrest⟩ | ⟨hhead, hhead'⟩
  · exact hrest
  · rwa [if_neg (by simpa using hhead), if_neg (by simpa using hhead')]

theorem afterNumber?_reindented (htext : Reindented text text') :
    Option.Rel Reindented (afterNumber? text) (afterNumber? text') := by
  have hunsigned := unsigned_reindented htext
  unfold afterNumber?
  dsimp only
  generalize (if text.head? == some '-' then text.tail else text) = unsigned at hunsigned ⊢
  generalize (if text'.head? == some '-' then text'.tail else text') = unsigned' at hunsigned ⊢
  obtain ⟨hwhole, hrest⟩ := hunsigned.takeWhile fun _ => isDecimalDigit_of_isIndent
  rw [← hwhole] at hrest ⊢
  split
  case isTrue => exact .none
  case isFalse =>
    rcases hrest.head_cases (c := '.') (by decide) with
      ⟨behind, behind', hbehind, hbehind', hpoint⟩ | ⟨hhead, hhead'⟩
    · obtain ⟨hfraction, hafter⟩ := hpoint.takeWhile fun _ => isDecimalDigit_of_isIndent
      rw [hbehind, hbehind']
      show Option.Rel Reindented
        (if (behind.takeWhile Text.isDecimalDigit).isEmpty then some ('.' :: behind)
          else some (behind.drop (behind.takeWhile Text.isDecimalDigit).length))
        (if (behind'.takeWhile Text.isDecimalDigit).isEmpty then some ('.' :: behind')
          else some (behind'.drop (behind'.takeWhile Text.isDecimalDigit).length))
      rw [← hfraction] at hafter ⊢
      split
      case isTrue => exact .some (.keep '.' hpoint)
      case isFalse => exact .some hafter
    · split
      case h_1 hbehind => exact absurd (congrArg List.head? hbehind) hhead
      case h_2 =>
        split
        case h_1 hbehind => exact absurd (congrArg List.head? hbehind) hhead'
        case h_2 => exact .some hrest

theorem afterLowerBound?_reindented (htext : Reindented text text') :
    Option.Rel Reindented (afterLowerBound? text) (afterLowerBound? text') := by
  have hword := isPrefixOf?_reindented ['-', 'I', 'n', 'f'] (by simp [isIndent]) htext
  unfold afterLowerBound?
  generalize ['-', 'I', 'n', 'f'].isPrefixOf? text = found at hword ⊢
  generalize ['-', 'I', 'n', 'f'].isPrefixOf? text' = found' at hword ⊢
  cases hword with
  | some hrest => exact .some hrest
  | none => exact afterNumber?_reindented htext

theorem afterUpperBound?_reindented (htext : Reindented text text') :
    Option.Rel Reindented (afterUpperBound? text) (afterUpperBound? text') := by
  have hsigned := isPrefixOf?_reindented ['+', 'I', 'n', 'f'] (by simp [isIndent]) htext
  have hword := isPrefixOf?_reindented ['I', 'n', 'f'] (by simp [isIndent]) htext
  unfold afterUpperBound?
  generalize ['+', 'I', 'n', 'f'].isPrefixOf? text = signed at hsigned ⊢
  generalize ['+', 'I', 'n', 'f'].isPrefixOf? text' = signed' at hsigned ⊢
  generalize ['I', 'n', 'f'].isPrefixOf? text = found at hword ⊢
  generalize ['I', 'n', 'f'].isPrefixOf? text' = found' at hword ⊢
  cases hsigned with
  | some hrest => exact .some hrest
  | none =>
      cases hword with
      | some hrest => exact .some hrest
      | none => exact afterNumber?_reindented htext

theorem any_eq_of_rel {found found' : Option (List Char)}
    (hfound : Option.Rel Reindented found found') {holds : List Char → Bool}
    (hholds : ∀ {rest rest'}, Reindented rest rest' → holds rest = holds rest') :
    found.any holds = found'.any holds := by
  cases hfound with
  | none => rfl
  | some hrest => exact hholds hrest

theorem isCountSet_eq (htext : Reindented text text') : isCountSet text = isCountSet text' := by
  have hunsigned := unsigned_reindented (skipBlanks_reindented htext)
  have hdigit := hunsigned.head?_any_eq fun _ => isDecimalDigit_of_isIndent
  have hbehind := hunsigned.dropWhile fun _ => isSetChar_of_isIndent
  have hbrace := hbehind.head?_beq_eq (c := '}') (by decide)
  unfold isCountSet
  dsimp only
  rw [hdigit, hbrace]

theorem isBoundPair_of_comma {lower rest : List Char}
    (hlower : afterLowerBound? (skipBlanks text) = some lower)
    (hcomma : skipBlanks lower = ',' :: rest) :
    isBoundPair text = (afterUpperBound? (skipBlanks rest)).any fun behind =>
      (skipBlanks behind).head?.any isBracket := by
  have hbound : (afterLowerBound? (skipBlanks text)).map skipBlanks = some (',' :: rest) := by
    rw [hlower, Option.map_some, hcomma]
  unfold isBoundPair
  rw [hbound]
  cases hupper : afterUpperBound? (skipBlanks rest) with
  | none => simp [hupper]
  | some behind => cases hbehind : skipBlanks behind <;> simp [hupper, hbehind]

theorem isBoundPair_of_not_comma
    (hother : ∀ lower, afterLowerBound? (skipBlanks text) = some lower →
      (skipBlanks lower).head? ≠ some ',') :
    isBoundPair text = false := by
  unfold isBoundPair
  split
  case h_1 rest hcomma =>
    obtain ⟨lower, hlower, hrest⟩ := Option.map_eq_some_iff.mp hcomma
    exact absurd (congrArg List.head? hrest) (hother lower hlower)
  case h_2 => rfl

theorem isBoundPair_eq (htext : Reindented text text') : isBoundPair text = isBoundPair text' := by
  have hlower := afterLowerBound?_reindented (skipBlanks_reindented htext)
  generalize hfound : afterLowerBound? (skipBlanks text) = found at hlower
  generalize hfound' : afterLowerBound? (skipBlanks text') = found' at hlower
  cases hlower with
  | none =>
      rw [isBoundPair_of_not_comma (by simp [hfound]), isBoundPair_of_not_comma (by simp [hfound'])]
  | some hlower =>
      rcases (skipBlanks_reindented hlower).head_cases (c := ',') (by decide) with
        ⟨rest, rest', hcomma, hcomma', hrest⟩ | ⟨hhead, hhead'⟩
      · rw [isBoundPair_of_comma hfound hcomma, isBoundPair_of_comma hfound' hcomma']
        refine any_eq_of_rel (afterUpperBound?_reindented (skipBlanks_reindented hrest)) ?_
        intro behind behind' hbehind
        refine (skipBlanks_reindented hbehind).head?_any_eq fun c hc => ?_
        rcases Text.isIndent_iff.mp hc with rfl | rfl | rfl | rfl <;> rfl
      · rw [isBoundPair_of_not_comma, isBoundPair_of_not_comma]
        · simpa [hfound'] using hhead'
        · simpa [hfound] using hhead

theorem isInterval_of_isIndent {c : Char} (hc : isIndent c = true) (rest : List Char) :
    isInterval (c :: rest) = false := by
  rcases Text.isIndent_iff.mp hc with rfl | rfl | rfl | rfl <;> rfl

theorem isInterval_eq (htext : Reindented text text') : isInterval text = isInterval text' := by
  cases htext with
  | nil => rfl
  | keep c hrest =>
      by_cases hset : c = '{'
      · subst hset
        exact isCountSet_eq hrest
      by_cases hopened : c = '['
      · subst hopened
        exact isBoundPair_eq hrest
      by_cases hclosed : c = ']'
      · subst hclosed
        exact isBoundPair_eq hrest
      · simp [isInterval, hset, hopened, hclosed]
  | run hfront hfront' =>
      obtain ⟨c, _, rfl, hc⟩ := hfront.exists_cons
      obtain ⟨c', _, rfl, hc'⟩ := hfront'.exists_cons
      rw [List.cons_append, List.cons_append, isInterval_of_isIndent hc, isInterval_of_isIndent hc']

/-! ## Rules -/

/-- A run without pipes stands inside one alternative. -/
theorem alternatives_append {front : List Char} (hfront : ∀ c ∈ front, c ≠ '|') (text : List Char) :
    alternatives (front ++ text) = (front ++ (alternatives text).1, (alternatives text).2) := by
  induction front with
  | nil => rfl
  | cons c rest ih =>
      obtain ⟨hc, hrest⟩ := List.forall_mem_cons.mp hfront
      rw [List.cons_append, alternatives_cons_of_ne hc, ih hrest]
      rfl

/-- The alternatives of two texts differ in indentation only, and so do those with one more pipe in
front, whose first pipe may double the first one of the texts. -/
theorem allAlternatives_reindented (htext : Reindented text text') :
    List.Forall₂ Reindented (allAlternatives text) (allAlternatives text') ∧
      List.Forall₂ Reindented (allAlternatives ('|' :: text)) (allAlternatives ('|' :: text')) := by
  have hpiped : ∀ {text text' : List Char}, text.head? ≠ some '|' → text'.head? ≠ some '|' →
      List.Forall₂ Reindented (allAlternatives text) (allAlternatives text') →
      List.Forall₂ Reindented (allAlternatives ('|' :: text)) (allAlternatives ('|' :: text')) := by
    intro text text' hhead hhead' hplain
    rw [allAlternatives, allAlternatives, alternatives_pipe hhead, alternatives_pipe hhead']
    exact .cons .nil hplain
  induction htext with
  | nil => exact ⟨.cons .nil .nil, .cons .nil (.cons .nil .nil)⟩
  | @keep c text text' hrest ih =>
      obtain ⟨hfirst, hothers⟩ := List.forall₂_cons.mp ih.1
      by_cases hc : c = '|'
      · subst hc
        refine ⟨ih.2, ?_⟩
        rw [allAlternatives, allAlternatives, alternatives, alternatives]
        exact .cons (.keep '|' hfirst) hothers
      · have hplain : List.Forall₂ Reindented (allAlternatives (c :: text))
            (allAlternatives (c :: text')) := by
          rw [allAlternatives, allAlternatives, alternatives_cons_of_ne hc,
            alternatives_cons_of_ne hc]
          exact .cons (.keep c hfirst) hothers
        exact ⟨hplain, hpiped (by simpa using hc) (by simpa using hc) hplain⟩
  | @run front front' text text' hfront hfront' hrest ih =>
      obtain ⟨hfirst, hothers⟩ := List.forall₂_cons.mp ih.1
      have hplain : List.Forall₂ Reindented (allAlternatives (front ++ text))
          (allAlternatives (front' ++ text')) := by
        rw [allAlternatives, allAlternatives, alternatives_append hfront.ne_pipe,
          alternatives_append hfront'.ne_pipe]
        exact .cons (.run hfront hfront' hfirst) hothers
      rcases (Reindented.run hfront hfront' hrest).head_cases (c := '|') (by decide) with
        ⟨rest, rest', hfound, -⟩ | ⟨hhead, hhead'⟩
      · obtain ⟨c, others, rfl, hc⟩ := hfront.exists_cons
        obtain rfl := (List.cons.inj hfound).1
        cases hc
      · exact ⟨hplain, hpiped hhead hhead' hplain⟩

theorem ruleParts_reindented (htext : Reindented text text') :
    List.Forall₂ Reindented (ruleParts text) (ruleParts text') := by
  by_cases hother : ∃ c ∈ text, c ≠ '|'
  · obtain ⟨c', hmem', hc'⟩ := htext.exists_mem_of_mem (by decide) hother
    obtain ⟨c, hmem, hc⟩ := hother
    rw [ruleParts_of_mem hmem hc, ruleParts_of_mem hmem' hc']
    refine List.rel_filter ?_ (allAlternatives_reindented htext).1
    intro part part' hpart
    show (!part.isEmpty) = true ↔ (!part'.isEmpty) = true
    rw [hpart.isEmpty_eq]
  · -- Among pipes alone there is no indentation.
    have hpipes : ∀ c ∈ text, isIndent c = false := by
      intro c hc
      have hpipe : c = '|' := by_contra fun hne => hother ⟨c, hc, hne⟩
      rw [hpipe]
      rfl
    rw [htext.eq_of_forall hpipes]
    exact List.forall₂_same.mpr fun part _ => .refl part

theorem ruleParts_respaced (htext : Respaced text text') :
    List.Forall₂ Respaced (ruleParts text) (ruleParts text') := by
  cases htext with
  | @intro front front' text text' hfront hfront' hempty hrest =>
      cases front with
      | nil =>
          obtain rfl : front' = [] := List.isEmpty_iff.mp hempty.symm
          exact (ruleParts_reindented hrest).imp fun _ _ => .of_reindented
      | cons c front =>
          obtain ⟨c', front', rfl⟩ : ∃ c' rest, front' = c' :: rest := by
            cases front' with
            | nil => cases hempty
            | cons c' rest => exact ⟨c', rest, rfl⟩
          -- The first character makes both texts more than pipes, and stands in the first part.
          have hne : ∀ c, isIndent c = true → c ≠ '|' := by
            rintro c hc rfl
            cases hc
          obtain ⟨hfirst, hothers⟩ := List.forall₂_cons.mp (allAlternatives_reindented hrest).1
          have hc := List.mem_append_left text (List.mem_cons_self (a := c) (l := front))
          have hc' := List.mem_append_left text' (List.mem_cons_self (a := c') (l := front'))
          rw [ruleParts_of_mem hc (hne c (hfront c List.mem_cons_self)),
            ruleParts_of_mem hc' (hne c' (hfront' c' List.mem_cons_self)),
            alternatives_append fun c hc => hne c (hfront c hc),
            alternatives_append fun c hc => hne c (hfront' c hc)]
          refine List.rel_filter ?_ (.cons (.intro hfront hfront' rfl hfirst)
            (hothers.imp fun _ _ => .of_reindented))
          intro part part' hpart
          show (!part.isEmpty) = true ↔ (!part'.isEmpty) = true
          rw [hpart.isEmpty_eq]

theorem ofPart_respaced (htext : Respaced text text') :
    Matches Eq (fun rule rule' => Reindented rule.toList rule'.toList) (ofPart text)
      (ofPart text') := by
  have hrule := htext.strip fun _ => isRuleBlank_of_isIndent
  unfold ofPart
  dsimp only
  rw [isInterval_eq hrule]
  split
  case isTrue => exact .error rfl
  case isFalse => exact .ok (by simpa using hrule)

theorem standardRules_respaced {text text' : String}
    (htext : Respaced text.toList text'.toList) :
    Matches Eq (List.Forall₂ fun rule rule' => Reindented rule.toList rule'.toList)
      (standardRules text) (standardRules text') :=
  .mapM (ruleParts_respaced htext) fun hpart => ofPart_respaced hpart

theorem split_respaced {text text' : String} (htext : Respaced text.toList text'.toList) :
    Matches Eq (fun forms forms' => Reindented forms.1.toList forms'.1.toList ∧
        Reindented forms.2.toList forms'.2.toList) (split text) (split text') := by
  have hrules := standardRules_respaced htext
  unfold split
  refine .bind hrules ?_
  intro rules rules' hforms
  cases hforms with
  | nil => exact .error rfl
  | cons hsingular hothers =>
      cases hothers with
      | nil => exact .error rfl
      | cons hplural hothers =>
          cases hothers with
          | nil => exact .ok ⟨hsingular, hplural⟩
          | cons _ hothers =>
              -- Neither text has two rules, and both have as many.
              refine .error ?_
              show PluralError.alternativeCount (_ + 3) = .alternativeCount (_ + 3)
              rw [hothers.length_eq]

end Plural

end TemplateMessages

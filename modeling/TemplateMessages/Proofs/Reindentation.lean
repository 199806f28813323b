import TemplateMessages.Proofs.Trimming

/-!
# Reindented texts

A text is reindented when runs of two or more spaces, tabs and line breaks in it
are written otherwise, as runs of two or more again.  Trimming takes such a run as a
whole or leaves it, and what is left of it collapses to one space.  A run at the
front of the text may have lost characters besides, down to a single one; once the
front is trimmed that no longer shows.
-/

namespace TemplateMessages

namespace Text

/-- The characters that lines are broken and indented with. -/
def isIndent (c : Char) : Bool :=
  [' ', '\t', '\n', '\r'].contains c

/-- Two or more characters of indentation. -/
structure Indents (run : List Char) : Prop where
  many : 2 ≤ run.length
  indent : ∀ c ∈ run, isIndent c = true

/-- Two texts that are the same but for runs of indentation, the longest ones or parts of them. -/
inductive Reindented : List Char → List Char → Prop
  | nil : Reindented [] []
  | keep (c : Char) {text text' : List Char} :
      Reindented text text' → Reindented (c :: text) (c :: text')
  | run {front front' text text' : List Char} :
      Indents front → Indents front' → Reindented text text' →
      Reindented (front ++ text) (front' ++ text')

/-- Texts that are the same but for runs of indentation, behind indentation that both have in front
or neither has. -/
inductive Respaced : List Char → List Char → Prop
  | intro {front front' text text' : List Char} :
      (∀ c ∈ front, isIndent c = true) → (∀ c ∈ front', isIndent c = true) →
      front.isEmpty = front'.isEmpty → Reindented text text' →
      Respaced (front ++ text) (front' ++ text')

theorem isIndent_iff {c : Char} :
    isIndent c = true ↔ c = ' ' ∨ c = '\t' ∨ c = '\n' ∨ c = '\r' := by
  simp [isIndent]

theorem isBlank_of_isIndent {c : Char} (hindent : isIndent c = true) : isBlank c = true := by
  rcases isIndent_iff.mp hindent with rfl | rfl | rfl | rfl <;> decide

theorem Indents.exists_cons {front : List Char} (hfront : Indents front) :
    ∃ c rest, front = c :: rest ∧ isIndent c = true := by
  cases front with
  | nil => exact absurd hfront.many (by simp)
  | cons c rest => exact ⟨c, rest, rfl, hfront.indent c List.mem_cons_self⟩

theorem Indents.ne_pipe {front : List Char} (hfront : Indents front) : ∀ c ∈ front, c ≠ '|' := by
  rintro c hc rfl
  cases hfront.indent _ hc

/-- A run of characters that may be trimmed is trimmed when nothing is left behind it. -/
theorem stripEnd_append_of_forall {drop : Char → Bool} {front : List Char}
    (hfront : ∀ c ∈ front, drop c = true) (text : List Char) :
    stripEnd drop (front ++ text) =
      if (stripEnd drop text).isEmpty then [] else front ++ stripEnd drop text := by
  simp only [stripEnd_append, stripEnd_eq_nil hfront, List.isEmpty_iff]

/-- Behind two blanks a scan counts no more of them. -/
theorem collapseFrom_many {front : List Char} (hfront : ∀ c ∈ front, isBlank c = true)
    (text : List Char) : collapseFrom .many (front ++ text) = collapseFrom .many text := by
  induction front with
  | nil => rfl
  | cons c rest ih =>
      obtain ⟨hc, hrest⟩ := List.forall_mem_cons.mp hfront
      rw [List.cons_append, collapseFrom, if_pos hc]
      exact ih hrest

theorem Indents.collapseFrom_append {front : List Char} (hfront : Indents front) (run : BlankRun)
    (text : List Char) : collapseFrom run (front ++ text) = collapseFrom .many text := by
  have hblank : ∀ c ∈ front, isBlank c = true :=
    fun c hc => isBlank_of_isIndent (hfront.indent c hc)
  match front, hfront.many with
  | first :: second :: rest, _ =>
      obtain ⟨hfirst, hblank⟩ := List.forall_mem_cons.mp hblank
      obtain ⟨hsecond, hrest⟩ := List.forall_mem_cons.mp hblank
      have hmany : (run.extend first).extend second = .many := by cases run <;> rfl
      rw [List.cons_append, List.cons_append, collapseFrom, if_pos hfirst, collapseFrom,
        if_pos hsecond, hmany, collapseFrom_many hrest]

namespace Reindented

variable {text text' : List Char} {drop : Char → Bool}

theorem refl (text : List Char) : Reindented text text := by
  induction text with
  | nil => exact .nil
  | cons c _ ih => exact .keep c ih

theorem append {rest rest' : List Char} (htext : Reindented text text')
    (hrest : Reindented rest rest') : Reindented (text ++ rest) (text' ++ rest') := by
  induction htext with
  | nil => exact hrest
  | keep c _ ih => exact .keep c ih
  | run hfront hfront' _ ih =>
      rw [List.append_assoc, List.append_assoc]
      exact .run hfront hfront' ih

theorem of_indents {front front' : List Char} (hfront : Indents front) (hfront' : Indents front') :
    Reindented front front' := by
  have hrun := Reindented.run hfront hfront' .nil
  rwa [List.append_nil, List.append_nil] at hrun

theorem eq_of_forall (htext : Reindented text text') (hnone : ∀ c ∈ text, isIndent c = false) :
    text = text' := by
  induction htext with
  | nil => rfl
  | keep c _ ih => rw [ih (List.forall_mem_cons.mp hnone).2]
  | run hfront =>
      obtain ⟨c, _, rfl, hc⟩ := hfront.exists_cons
      rw [hnone c List.mem_cons_self] at hc
      cases hc

theorem isEmpty_eq (htext : Reindented text text') : text.isEmpty = text'.isEmpty := by
  cases htext with
  | nil => rfl
  | keep => rfl
  | run hfront hfront' =>
      obtain ⟨_, _, rfl, -⟩ := hfront.exists_cons
      obtain ⟨_, _, rfl, -⟩ := hfront'.exists_cons
      rfl

/-- Both texts go on with a character that is no indentation, or neither does. -/
theorem head_cases {c : Char} (hc : isIndent c = false) (htext : Reindented text text') :
    (∃ rest rest', text = c :: rest ∧ text' = c :: rest' ∧ Reindented rest rest') ∨
      text.head? ≠ some c ∧ text'.head? ≠ some c := by
  cases htext with
  | nil => exact .inr ⟨nofun, nofun⟩
  | @keep first rest rest' hrest =>
      by_cases hfirst : first = c
      · subst hfirst
        exact .inl ⟨rest, rest', rfl, rfl, hrest⟩
      · exact .inr ⟨by simpa using hfirst, by simpa using hfirst⟩
  | run hfront hfront' _ =>
      obtain ⟨first, _, rfl, hfirst⟩ := hfront.exists_cons
      obtain ⟨first', _, rfl, hfirst'⟩ := hfront'.exists_cons
      refine .inr ⟨?_, ?_⟩
      · rintro hsame
        obtain rfl := Option.some.inj hsame
        rw [hc] at hfirst
        cases hfirst
      · rintro hsame
        obtain rfl := Option.some.inj hsame
        rw [hc] at hfirst'
        cases hfirst'

theorem head?_beq_eq (htext : Reindented text text') {c : Char} (hc : isIndent c = false) :
    (text.head? == some c) = (text'.head? == some c) := by
  rcases htext.head_cases hc with ⟨_, _, rfl, rfl, -⟩ | ⟨hhead, hhead'⟩
  · rfl
  · rw [beq_eq_false_iff_ne.mpr hhead, beq_eq_false_iff_ne.mpr hhead']

theorem head?_any_eq (htext : Reindented text text') {holds : Char → Bool}
    (hholds : ∀ c, isIndent c = true → holds c = false) :
    text.head?.any holds = text'.head?.any holds := by
  cases htext with
  | nil => rfl
  | keep => rfl
  | run hfront hfront' =>
      obtain ⟨c, _, rfl, hc⟩ := hfront.exists_cons
      obtain ⟨c', _, rfl, hc'⟩ := hfront'.exists_cons
      simp [hholds c hc, hholds c' hc']

/-- A text with a character of another kind than indentation keeps it. -/
theorem exists_mem_of_mem (htext : Reindented text text') {c : Char} (hc : isIndent c = false)
    (hother : ∃ first ∈ text, first ≠ c) : ∃ first ∈ text', first ≠ c := by
  induction htext with
  | nil => exact hother
  | keep first _ ih =>
      obtain ⟨found, hfound, hne⟩ := hother
      rcases List.mem_cons.mp hfound with rfl | hfound
      · exact ⟨found, List.mem_cons_self, hne⟩
      · obtain ⟨found', hfound', hne'⟩ := ih ⟨found, hfound, hne⟩
        exact ⟨found', List.mem_cons_of_mem _ hfound', hne'⟩
  | run _ hfront' _ _ =>
      obtain ⟨first', _, rfl, hfirst'⟩ := hfront'.exists_cons
      refine ⟨first', List.mem_cons_self, ?_⟩
      rintro rfl
      rw [hc] at hfirst'
      cases hfirst'

/-! ## Classes of characters -/

/-- A class with all of indentation takes a whole run, or the front of both texts without one. -/
theorem dropWhile (htext : Reindented text text')
    (hdrop : ∀ c, isIndent c = true → drop c = true) :
    Reindented (text.dropWhile drop) (text'.dropWhile drop) := by
  induction htext with
  | nil => exact .nil
  | keep c hrest ih =>
      rw [List.dropWhile_cons, List.dropWhile_cons]
      split
      case isTrue => exact ih
      case isFalse => exact .keep c hrest
  | run hfront hfront' _ ih =>
      rwa [List.dropWhile_append_of_pos fun c hc => hdrop c (hfront.indent c hc),
        List.dropWhile_append_of_pos fun c hc => hdrop c (hfront'.indent c hc)]

/-- A class without indentation takes the same characters off both texts. -/
theorem takeWhile (htext : Reindented text text')
    (hdrop : ∀ c, isIndent c = true → drop c = false) :
    text.takeWhile drop = text'.takeWhile drop ∧
      Reindented (text.drop (text.takeWhile drop).length)
        (text'.drop (text'.takeWhile drop).length) := by
  induction htext with
  | nil => exact ⟨rfl, .nil⟩
  | keep c hrest ih =>
      obtain ⟨hsame, hbehind⟩ := ih
      rw [List.takeWhile_cons, List.takeWhile_cons]
      split
      case isTrue => exact ⟨congrArg (List.cons c) hsame, hbehind⟩
      case isFalse => exact ⟨rfl, .keep c hrest⟩
  | run hfront hfront' hrest _ =>
      have hrun := Reindented.run hfront hfront' hrest
      obtain ⟨c, _, rfl, hc⟩ := hfront.exists_cons
      obtain ⟨c', _, rfl, hc'⟩ := hfront'.exists_cons
      rw [List.cons_append, List.cons_append] at hrun ⊢
      rw [List.takeWhile_cons_of_neg (ne_true_of_eq_false (hdrop c hc)),
        List.takeWhile_cons_of_neg (ne_true_of_eq_false (hdrop c' hc'))]
      exact ⟨rfl, hrun⟩

/-! ## Trimming and collapsing -/

theorem stripEnd (htext : Reindented text text')
    (hdrop : ∀ c, isIndent c = true → drop c = true) :
    Reindented (Text.stripEnd drop text) (Text.stripEnd drop text') := by
  induction htext with
  | nil => exact .nil
  | keep c _ ih =>
      rw [stripEnd_cons, stripEnd_cons, ih.isEmpty_eq]
      split
      case isTrue => exact .nil
      case isFalse => exact .keep c ih
  | run hfront hfront' _ ih =>
      rw [stripEnd_append_of_forall fun c hc => hdrop c (hfront.indent c hc),
        stripEnd_append_of_forall fun c hc => hdrop c (hfront'.indent c hc), ih.isEmpty_eq]
      split
      case isTrue => exact .nil
      case isFalse => exact .run hfront hfront' ih

theorem strip (htext : Reindented text text')
    (hdrop : ∀ c, isIndent c = true → drop c = true) :
    Reindented (Text.strip drop text) (Text.strip drop text') :=
  (htext.dropWhile hdrop).stripEnd hdrop

theorem collapseFrom_eq (htext : Reindented text text') (run : BlankRun) :
    collapseFrom run text = collapseFrom run text' := by
  induction htext generalizing run with
  | nil => rfl
  | keep c _ ih => rw [collapseFrom, collapseFrom, ih, ih]
  | run hfront hfront' _ ih =>
      rw [hfront.collapseFrom_append, hfront'.collapseFrom_append, ih]

end Reindented

/-! ## Respaced texts -/

/-- All that a run holds is white space. -/
def BlankRun.Blank (run : BlankRun) : Prop :=
  ∀ c ∈ run.written, isBlank c = true

theorem BlankRun.blank_extend {run : BlankRun} {c : Char} (hc : isBlank c = true) :
    (run.extend c).Blank := by
  cases run with
  | none => simpa [Blank, extend, written] using hc
  | single => simp [Blank, extend, written]; decide
  | many => simp [Blank, extend, written]; decide

/-- What comes before the first other character is white space, whatever has been met. -/
theorem stripStart_collapseFrom {run : BlankRun} (hrun : run.Blank) (text : List Char) :
    stripStart isBlank (collapseFrom run text) = stripStart isBlank (collapseFrom .none text) := by
  induction text generalizing run with
  | nil => exact List.dropWhile_eq_nil_iff.mpr hrun
  | cons c rest ih =>
      rw [collapseFrom, collapseFrom]
      split
      case isTrue hc => rw [ih (BlankRun.blank_extend hc), ih (BlankRun.blank_extend hc)]
      case isFalse => exact List.dropWhile_append_of_pos hrun

theorem stripStart_collapseFrom_append {front : List Char} (hfront : ∀ c ∈ front, isBlank c = true)
    (text : List Char) :
    stripStart isBlank (collapseFrom .none (front ++ text)) =
      stripStart isBlank (collapseFrom .none text) := by
  induction front with
  | nil => rfl
  | cons c rest ih =>
      obtain ⟨hc, hrest⟩ := List.forall_mem_cons.mp hfront
      rw [List.cons_append, collapseFrom, if_pos hc, stripStart_collapseFrom (BlankRun.blank_extend hc),
        ih hrest]

namespace Respaced

variable {text text' : List Char} {drop : Char → Bool}

theorem of_reindented (htext : Reindented text text') : Respaced text text' :=
  @intro [] [] text text' nofun nofun rfl htext

theorem refl (text : List Char) : Respaced text text :=
  of_reindented (.refl text)

theorem isEmpty_eq (htext : Respaced text text') : text.isEmpty = text'.isEmpty := by
  cases htext with
  | @intro front front' text text' _ _ hempty hrest =>
      cases front with
      | nil =>
          obtain rfl : front' = [] := List.isEmpty_iff.mp hempty.symm
          exact hrest.isEmpty_eq
      | cons =>
          cases front' with
          | nil => cases hempty
          | cons => rfl

theorem stripEnd (htext : Respaced text text') (hdrop : ∀ c, isIndent c = true → drop c = true) :
    Respaced (Text.stripEnd drop text) (Text.stripEnd drop text') := by
  cases htext with
  | intro hfront hfront' hempty hrest =>
      have hstripped := hrest.stripEnd hdrop
      rw [stripEnd_append_of_forall fun c hc => hdrop c (hfront c hc),
        stripEnd_append_of_forall fun c hc => hdrop c (hfront' c hc), hstripped.isEmpty_eq]
      split
      case isTrue => exact .refl []
      case isFalse => exact .intro hfront hfront' hempty hstripped

/-- Once the fronts are trimmed the texts are the same but for runs. -/
theorem strip (htext : Respaced text text') (hdrop : ∀ c, isIndent c = true → drop c = true) :
    Reindented (Text.strip drop text) (Text.strip drop text') := by
  cases htext with
  | intro hfront hfront' _ hrest =>
      rw [Text.strip, Text.strip, stripStart, stripStart,
        List.dropWhile_append_of_pos fun c hc => hdrop c (hfront c hc),
        List.dropWhile_append_of_pos fun c hc => hdrop c (hfront' c hc)]
      exact hrest.strip hdrop

theorem stripStart_collapse_eq (htext : Respaced text text') :
    stripStart isBlank (collapseFrom .none text) = stripStart isBlank (collapseFrom .none text') := by
  cases htext with
  | intro hfront hfront' _ hrest =>
      rw [stripStart_collapseFrom_append fun c hc => isBlank_of_isIndent (hfront c hc),
        stripStart_collapseFrom_append fun c hc => isBlank_of_isIndent (hfront' c hc),
        hrest.collapseFrom_eq]

end Respaced

end Text

end TemplateMessages

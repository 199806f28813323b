import TemplateMessages.Proofs.WrittenReplacements

/-!
# The placeholders of a message and of its plural

The placeholders of a counted message are looked for in the message with its plural
put right behind it.  What the message has is found there too.  What the plural has
is found when the message leaves no placeholder open and no two percent signs meet
where the texts do; otherwise a sign of the plural may close a placeholder of the
message, or stand behind another sign and open none, and the placeholder of the
plural stays unbound.
-/

namespace TemplateMessages

namespace Placeholder

/-! ## A text with another behind it -/

theorem length_takeWhile_lt_iff {text : List Char} :
    (text.takeWhile (· != '%')).length < text.length ↔ '%' ∈ text := by
  induction text with
  | nil => simp
  | cons c rest ih =>
      by_cases hsign : c = '%'
      · simp [hsign]
      · simp [hsign, ih, Ne.symm hsign]

theorem length_lt_of_name? {text name : List Char} (hname : name? text = some name) :
    name.length < text.length := by
  unfold name? at hname
  dsimp only at hname
  split at hname
  case isTrue => cases hname
  case isFalse hproper =>
    obtain rfl := Option.some.inj hname
    rw [Bool.or_eq_true, not_or, decide_eq_true_eq] at hproper
    exact Nat.lt_of_le_of_ne (List.takeWhile_prefix _).length_le hproper.2

/-- A name ends in front of a percent sign. -/
theorem mem_of_name? {text name : List Char} (hname : name? text = some name) : '%' ∈ text := by
  have hlt := length_lt_of_name? hname
  unfold name? at hname
  dsimp only at hname
  split at hname
  case isTrue => cases hname
  case isFalse =>
    obtain rfl := Option.some.inj hname
    exact length_takeWhile_lt_iff.mp hlt

/-- Behind a percent sign nothing counts for the name in front of it. -/
theorem name?_append {text : List Char} (hsign : '%' ∈ text) (more : List Char) :
    name? (text ++ more) = name? text := by
  have hlt := length_takeWhile_lt_iff.mpr hsign
  unfold name?
  rw [List.takeWhile_append, if_neg hlt.ne]
  have hlonger : (text.takeWhile (· != '%')).length ≠ (text ++ more).length := by
    rw [List.length_append]
    omega
  simp only [hlonger, hlt.ne]

/-- Without a percent sign there is no placeholder. -/
theorem namesFrom_of_notMem {text : List Char} (hfree : '%' ∉ text) (afterSign : Bool) :
    namesFrom afterSign 0 text = [] := by
  induction text generalizing afterSign with
  | nil => rfl
  | cons c rest ih =>
      rw [List.mem_cons, not_or] at hfree
      obtain ⟨hfirst, hrest⟩ := hfree
      rw [namesFrom, if_neg fun hopens => hfirst hopens.1.symm, ih hrest]

/-- A sign in front counts only for a text that starts with a sign. -/
theorem namesFrom_true {text : List Char} (hfirst : text.head? ≠ some '%') :
    namesFrom true 0 text = namesFrom false 0 text := by
  cases text with
  | nil => rfl
  | cons c rest =>
      have hother : c ≠ '%' := fun heq => hfirst (congrArg some heq)
      rw [namesFrom, namesFrom, if_neg (by simp), if_neg fun hopens => hother hopens.1]

/-- Whether the walk over a text ends behind a sign that has opened a placeholder and that no other
sign closes. -/
def leavesOpen (afterSign : Bool) (skip : Nat) : List Char → Bool
  | [] => false
  | c :: rest =>
      match skip with
      | skip + 1 => leavesOpen (c == '%') skip rest
      | 0 =>
          if c = '%' ∧ afterSign = false then
            match name? rest with
            | some name => leavesOpen true (name.length + 1) rest
            | none => !rest.contains '%' || leavesOpen true 0 rest
          else leavesOpen (c == '%') 0 rest

theorem namesFrom_sign (rest : List Char) :
    namesFrom false 0 ('%' :: rest) =
      match name? rest with
      | some name => name :: namesFrom true (name.length + 1) rest
      | none => namesFrom true 0 rest := by
  cases hname : name? rest <;> simp [namesFrom, hname]

theorem leavesOpen_sign (rest : List Char) :
    leavesOpen false 0 ('%' :: rest) =
      match name? rest with
      | some name => leavesOpen true (name.length + 1) rest
      | none => !rest.contains '%' || leavesOpen true 0 rest := by
  cases hname : name? rest <;> simp [leavesOpen, hname]

/-- Whether the last character is a percent sign, or the one in front of an empty text is. -/
def endsInSign (afterSign : Bool) : List Char → Bool
  | [] => afterSign
  | c :: rest => endsInSign (c == '%') rest

/-- The names in a text are found in front of what else is found with another text behind it.  When
the text leaves no placeholder open the other names are those of the text behind it, read from the
sign that the first one may end in. -/
theorem exists_namesFrom_append {text : List Char} {afterSign : Bool} {skip : Nat}
    (hskip : skip ≤ text.length) (more : List Char) :
    ∃ others, namesFrom afterSign skip (text ++ more) = namesFrom afterSign skip text ++ others ∧
      (leavesOpen afterSign skip text = false →
        others = namesFrom (endsInSign afterSign text) 0 more) := by
  induction text generalizing afterSign skip with
  | nil =>
      obtain rfl : skip = 0 := Nat.le_zero.mp hskip
      exact ⟨_, rfl, fun _ => rfl⟩
  | cons c rest ih =>
      cases skip with
      | succ skip => exact ih (Nat.le_of_succ_le_succ hskip)
      | zero =>
          by_cases hopens : c = '%' ∧ afterSign = false
          · obtain ⟨rfl, rfl⟩ := hopens
            rw [List.cons_append, namesFrom_sign, namesFrom_sign, leavesOpen_sign]
            by_cases hsign : '%' ∈ rest
            · rw [name?_append hsign]
              cases hname : name? rest with
              | some name =>
                  obtain ⟨others, hnames, hclosed⟩ :=
                    @ih true (name.length + 1) (length_lt_of_name? hname)
                  exact ⟨others, congrArg (name :: ·) hnames, hclosed⟩
              | none =>
                  obtain ⟨others, hnames, hclosed⟩ := @ih true 0 (Nat.zero_le _)
                  refine ⟨others, hnames, fun hleaves => hclosed ?_⟩
                  exact (Bool.or_eq_false_iff.mp hleaves).2
            · -- The sign stays open in the first text, so nothing is said of the second one.
              have hnone : name? rest = none := by
                rw [Option.eq_none_iff_forall_ne_some]
                intro name hname
                exact hsign (mem_of_name? hname)
              rw [hnone]
              refine ⟨_, by rw [namesFrom_of_notMem hsign, List.nil_append], fun hleaves => ?_⟩
              simp [hsign] at hleaves
          · obtain ⟨others, hnames, hclosed⟩ := @ih (c == '%') 0 (Nat.zero_le _)
            refine ⟨others, ?_, ?_⟩
            · rw [List.cons_append, namesFrom, namesFrom, if_neg hopens, if_neg hopens, hnames]
            · rw [leavesOpen, if_neg hopens]
              exact hclosed

/-- Two texts that can stand behind one another: the first leaves no placeholder open, and no two
percent signs meet where the second one starts. -/
structure Apart (first second : String) : Prop where
  closed : leavesOpen false 0 first.toList = false
  signs : endsInSign false first.toList = true → second.toList.head? ≠ some '%'

/-- What a text names is named with another text behind it. -/
theorem names_subset_append (first second : String) :
    ∀ name ∈ names first, name ∈ names (first ++ second) := by
  obtain ⟨others, hnames, -⟩ :=
    @exists_namesFrom_append first.toList false 0 (Nat.zero_le _) second.toList
  rw [names, names, String.toList_append, hnames, List.map_append]
  exact fun name hmem => List.mem_append_left _ hmem

/-- Texts that can stand behind one another name what each of them names. -/
theorem names_append {first second : String} (hapart : Apart first second) :
    names (first ++ second) = names first ++ names second := by
  obtain ⟨others, hnames, hothers⟩ :=
    @exists_namesFrom_append first.toList false 0 (Nat.zero_le _) second.toList
  have hsecond : others = namesFrom false 0 second.toList := by
    rw [hothers hapart.closed]
    cases hends : endsInSign false first.toList with
    | false => rfl
    | true => exact namesFrom_true (hapart.signs hends)
  rw [names, names, names, String.toList_append, hnames, hsecond, List.map_append]

end Placeholder

namespace Template

/-- The entries of a mapping, or of the defaults that another value is merged over. -/
def Expr.defaults : Expr → List (Expr × Expr)
  | .map entries => entries
  | .merge (.map entries) _ => entries
  | _ => []

namespace TransTag

/-- The placeholder has an entry in the mapping that the tag compiles to. -/
def HasEntry (tag : TransTag) (name : String) : Prop :=
  ∃ entry ∈ tag.replacements.defaults, entry.1.stringConstant? = some (Placeholder.token name)

instance (tag : TransTag) (name : String) : Decidable (tag.HasEntry name) :=
  inferInstanceAs (Decidable (∃ entry ∈ tag.replacements.defaults, _ = _))

theorem hasEntry_iff {tag : TransTag} {name : String} :
    tag.HasEntry name ↔ ¬ Unwritten tag.replacements.defaults name := by
  simp [HasEntry, Unwritten]

/-- Binding one more placeholder leaves the others as they were. -/
theorem unwritten_bindPlaceholder_iff {count : Option Expr} {entries : List (Expr × Expr)}
    {name other : String} :
    Unwritten (bindPlaceholder count entries name) other ↔
      Unwritten entries other ∧ other ≠ name := by
  unfold bindPlaceholder
  dsimp only
  split
  case isTrue hany =>
    refine ⟨fun hfree => ⟨hfree, ?_⟩, And.left⟩
    rintro rfl
    rw [unwritten_iff.mp hfree] at hany
    cases hany
  case isFalse => exact unwritten_concat_iff

/-- The placeholders that are bound over some entries are those that have none in the end. -/
theorem unwritten_foldl_iff {count : Option Expr} {names : List String}
    {entries : List (Expr × Expr)} {other : String} :
    Unwritten (names.foldl (bindPlaceholder count) entries) other ↔
      Unwritten entries other ∧ other ∉ names := by
  induction names generalizing entries with
  | nil => simp
  | cons name rest ih =>
      rw [List.foldl_cons, ih, unwritten_bindPlaceholder_iff, List.mem_cons, not_or, and_assoc]

/-- Whatever the tag binds itself, the placeholders are bound over the entries that are written. -/
theorem defaults_replacements (tag : TransTag) :
    tag.replacements.defaults = tag.placeholders.foldl (bindPlaceholder tag.count) tag.writtenEntries := by
  unfold replacements writtenEntries
  cases tag.vars with
  | none => rfl
  | some vars => cases vars <;> rfl

/-- The placeholders with an entry are those that the tag writes and those found in the message with
its plural behind it. -/
theorem hasEntry_iff_placeholder {tag : TransTag} {name : String} :
    tag.HasEntry name ↔ ¬ Unwritten tag.writtenEntries name ∨ name ∈ tag.placeholders := by
  rw [hasEntry_iff, defaults_replacements, unwritten_foldl_iff, not_and_or, not_not]

/-- A placeholder has an entry exactly when the tag writes one or it is found in the message with
its plural behind it.  All placeholders of the message are found there, and those of the plural as well
when the two texts can stand behind one another. -/
theorem entries_of_forms (tag : TransTag) :
    (∀ name, tag.HasEntry name ↔
      ¬ Unwritten tag.writtenEntries name ∨ name ∈ tag.placeholders) ∧
    (∀ name ∈ Placeholder.names tag.body, tag.HasEntry name) ∧
    ∀ plural, tag.plural = some plural → Placeholder.Apart tag.body plural →
      tag.placeholders = Placeholder.names tag.body ++ Placeholder.names plural ∧
      ∀ name ∈ Placeholder.names plural, tag.HasEntry name := by
  refine ⟨fun _ => hasEntry_iff_placeholder, ?_, ?_⟩
  · intro name hname
    exact hasEntry_iff_placeholder.mpr (.inr (Placeholder.names_subset_append _ _ name hname))
  · intro plural hplural hapart
    have hnames : tag.placeholders = Placeholder.names tag.body ++ Placeholder.names plural := by
      rw [placeholders, hplural, Option.getD_some, Placeholder.names_append hapart]
    refine ⟨hnames, fun name hname => hasEntry_iff_placeholder.mpr (.inr ?_)⟩
    rw [hnames]
    exact List.mem_append_right _ hname

/-- The tag of `{% trans count n %}%name% has one|%count% are of %name%{% endtrans %}`. -/
def namedForms : TransTag :=
  ⟨"%name% has one", some "%count% are of %name%", none, some (.name "n"), none, none, none, 1⟩

/-- A message that ends in a word can stand in front of a plural that starts with a placeholder. -/
theorem entries_of_namedForms :
    namedForms.plural = some "%count% are of %name%" ∧
      Placeholder.Apart namedForms.body "%count% are of %name%" ∧
      namedForms.HasEntry "count" := by
  have hplural : namedForms.plural = some "%count% are of %name%" := rfl
  have hapart : Placeholder.Apart namedForms.body "%count% are of %name%" :=
    ⟨by decide +kernel, by decide +kernel⟩
  have hname : "count" ∈ Placeholder.names "%count% are of %name%" := by decide +kernel
  exact ⟨hplural, hapart, ((entries_of_forms namedForms).2.2 _ hplural hapart).2 "count" hname⟩

/-- Every placeholder of the message and every one of its plural has an entry. -/
def BindsForms (tag : TransTag) : Prop :=
  (∀ name ∈ Placeholder.names tag.body, tag.HasEntry name) ∧
    ∀ name ∈ Placeholder.names (tag.plural.getD ""), tag.HasEntry name

end TransTag

/-- Where the sign at the end of a message meets the one at the start of its plural, the placeholder
of the plural is not found. -/
theorem Session.plural_placeholder_not_bound :
    ∃ tag, ((start (.empty "en")).parse
        ⟨"\x7b% trans count n %\x7d%one%|%many%\x7b% endtrans %\x7d", none⟩).1 =
          .ok (.trans tag) ∧
      tag.count.isSome ∧ ¬ tag.BindsForms := by
  have hread : (onlyTag? ((start (.empty "en")).parse
      ⟨"\x7b% trans count n %\x7d%one%|%many%\x7b% endtrans %\x7d", none⟩).1).any
        (fun tag => tag.count.isSome &&
          decide ("many" ∈ Placeholder.names (tag.plural.getD "") ∧ ¬ tag.HasEntry "many")) =
            true := by
    decide +kernel
  obtain ⟨tag, hparse, htest⟩ := eq_ok_of_any_onlyTag hread
  rw [Bool.and_eq_true, decide_eq_true_eq] at htest
  obtain ⟨hcount, hname, hunbound⟩ := htest
  exact ⟨tag, hparse, hcount, fun hbinds => hunbound (hbinds.2 "many" hname)⟩

end Template

end TemplateMessages

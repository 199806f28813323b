import TemplateMessages.Proofs.TagLookup

/-!
# The values of a tag's replacements

What the replacements of a trans tag are worth can be said without the mapping
that the tag compiles to.  The author gives some values in the mapping of the
tag; every placeholder that the mapping leaves open stands for the count or for
the variable of its name.  A literal mapping is evaluated in front of the open
placeholders, and any other expression behind them.
-/

namespace TemplateMessages

namespace Assoc

variable {κ α : Type} [DecidableEq κ]

@[simp]
theorem has_put (key other : κ) (value : α) (pairs : Assoc κ α) :
    (pairs.put key value).has other = (pairs.has other || decide (other = key)) := by
  rw [Bool.eq_iff_iff, has_iff_mem_keys, mem_keys_put, Bool.or_eq_true, has_iff_mem_keys,
    decide_eq_true_eq]

theorem get?_append (key : κ) (first second : Assoc κ α) :
    get? key (first ++ second) = (get? key first).or (get? key second) := by
  induction first with
  | nil => rfl
  | cons entry rest ih =>
      by_cases hkey : entry.1 = key <;> simp [get?, hkey, ih]

/-- Of what is written over an association the value that is written last counts. -/
theorem get?_putAll_eq (key : κ) (base extra : Assoc κ α) :
    get? key (putAll base extra) = (get? key (ofPairs extra)).or (get? key base) := by
  induction extra using List.reverseRecOn with
  | nil => rfl
  | append_singleton rest entry ih =>
      have hputAll : putAll base (rest ++ [entry]) = put entry.1 entry.2 (putAll base rest) := by
        rw [putAll, List.foldl_append]
        rfl
      rw [hputAll, ofPairs_concat]
      by_cases hkey : key = entry.1
      · subst hkey
        rw [get?_put_self, get?_put_self, Option.some_or]
      · rw [get?_put_of_ne hkey, get?_put_of_ne hkey, ih]

end Assoc

namespace Template

open TemplateMessages.Gettext (Catalog)

variable (catalog : Catalog) (context : Context)

/-- The members of an object; another value has none. -/
def membersOf : Value → Assoc String Value
  | .object members => members
  | _ => []

namespace TransTag

/-- The value that a placeholder stands for: the count for `count` when the tag has one, and
otherwise the variable of its name. -/
def placeholderValue (tag : TransTag) (name : String) : Except RenderError Value :=
  match tag.count with
  | some count =>
      if name = "count" then count.evaluate [transFilter catalog] context
      else .ok ((context.get? name).getD .null)
  | none => .ok ((context.get? name).getD .null)

/-- Of some names those whose placeholders are not bound yet, each once. -/
def openNames (given : Assoc String Value) (names : List String) : List String :=
  (names.filter fun name => !given.has (Placeholder.token name)).eraseDups

/-- Placeholders with what they stand for. -/
def openValues (tag : TransTag) (names : List String) : Except RenderError (Assoc String Value) :=
  names.mapM fun name => Prod.mk (Placeholder.token name) <$> tag.placeholderValue catalog context name

/-- What the mapping of the tag gives; a value that is no mapping gives nothing. -/
def givenValues (tag : TransTag) : Except RenderError (Assoc String Value) :=
  match tag.vars with
  | none => .ok []
  | some vars => membersOf <$> vars.evaluate [transFilter catalog] context

/-- The replacements of the tag: what is given, and what the placeholders stand for that are left
open. -/
def replacementValues (tag : TransTag) : Except RenderError (Assoc String Value) :=
  match tag.vars with
  | some (.map _) => do
      let given ← tag.givenValues catalog context
      let opened ← tag.openValues catalog context (openNames given tag.placeholders)
      return given ++ opened
  | _ => do
      let opened ← tag.openValues catalog context (openNames [] tag.placeholders)
      let given ← tag.givenValues catalog context
      return opened.putAll given

/-- The entries of a mapping that is written out. -/
def writtenEntries (tag : TransTag) : List (Expr × Expr) :=
  match tag.vars with
  | some (.map entries) => entries
  | _ => []

/-- A mapping that is written out has texts for its keys. -/
def LiteralKeys (tag : TransTag) : Prop :=
  ∀ entry ∈ tag.writtenEntries, entry.1.stringConstant?.isSome

instance (tag : TransTag) : Decidable tag.LiteralKeys :=
  inferInstanceAs (Decidable (∀ entry ∈ tag.writtenEntries, entry.1.stringConstant?.isSome))

end TransTag

/-! ## Entries -/

section Results

variable {ε α β : Type}

/-- Two ways to go on agree when they agree on the values that there are. -/
theorem bind_congr_of_ok {first : Except ε α} {left right : α → Except ε β}
    (hsame : ∀ value, first = .ok value → left value = right value) :
    first >>= left = first >>= right := by
  cases first with
  | error error => rfl
  | ok value => exact hsame value rfl

end Results

namespace Expr

variable {catalog : Catalog} {context : Context}

/-- The keys of entries with texts for keys are these texts. -/
theorem has_evaluateEntries {entries : List (Expr × Expr)}
    (hkeys : ∀ entry ∈ entries, entry.1.stringConstant?.isSome)
    {base members : Assoc String Value}
    (hmembers : evaluateEntries [transFilter catalog] context base entries = .ok members) (key : String) :
    members.has key =
      (base.has key || entries.any fun entry => entry.1.stringConstant? == some key) := by
  induction entries generalizing base with
  | nil =>
      obtain rfl : base = members := Except.ok.inj hmembers
      simp
  | cons entry rest ih =>
      obtain ⟨hfirst, hrest⟩ := List.forall_mem_cons.mp hkeys
      obtain ⟨expr, value⟩ := entry
      obtain ⟨text, htext⟩ := Option.isSome_iff_exists.mp hfirst
      obtain rfl := eq_string_of_stringConstant? htext
      obtain ⟨found, hfound, hmembers⟩ := bind_eq_ok.mp hmembers
      obtain rfl : Value.string text = found := Except.ok.inj hfound
      obtain ⟨_, -, hmembers⟩ := bind_eq_ok.mp hmembers
      have htext : ((string text).stringConstant? == some key) = decide (key = text) := by
        rw [Bool.eq_iff_iff, beq_iff_eq, decide_eq_true_eq, eq_comm]
        exact Option.some_inj
      rw [ih hrest hmembers, Assoc.has_put, List.any_cons, htext, Bool.or_assoc]
      rfl

theorem nodup_evaluateEntries {entries : List (Expr × Expr)} {base members : Assoc String Value}
    (hbase : (Assoc.keys base).Nodup)
    (hmembers : evaluateEntries [transFilter catalog] context base entries = .ok members) :
    (Assoc.keys members).Nodup := by
  induction entries generalizing base with
  | nil =>
      obtain rfl : base = members := Except.ok.inj hmembers
      exact hbase
  | cons entry rest ih =>
      obtain ⟨expr, value⟩ := entry
      obtain ⟨_, -, hmembers⟩ := bind_eq_ok.mp hmembers
      obtain ⟨_, -, hmembers⟩ := bind_eq_ok.mp hmembers
      exact ih (Assoc.nodup_keys_put _ _ hbase) hmembers

end Expr

namespace TransTag

variable {catalog : Catalog} {context : Context}

theorem token_injective : Function.Injective Placeholder.token := by
  intro left right heq
  have hchars := congrArg String.toList heq
  simp only [Placeholder.token, String.toList_append, List.append_cancel_right_eq,
    List.append_cancel_left_eq] at hchars
  exact String.toList_inj.mp hchars

/-- An open placeholder is bound to an expression that is worth what it stands for. -/
theorem exists_bindPlaceholder_eq (catalog : Catalog) (context : Context) {tag : TransTag}
    {entries : List (Expr × Expr)} {name : String}
    (hopen : (entries.any fun entry =>
      entry.1.stringConstant? == some (Placeholder.token name)) = false) :
    ∃ expr : Expr, bindPlaceholder tag.count entries name =
        entries ++ [(.string (Placeholder.token name), expr)] ∧
      expr.evaluate [transFilter catalog] context = tag.placeholderValue catalog context name := by
  unfold bindPlaceholder placeholderValue
  rw [if_neg (by simp [hopen])]
  refine ⟨_, rfl, ?_⟩
  cases tag.count with
  | none => rfl
  | some count => by_cases hcounted : name = "count" <;> simp [hcounted, Expr.evaluate]

theorem openNames_cons_of_has {given : Assoc String Value} {name : String} {rest : List String}
    (hgiven : given.has (Placeholder.token name) = true) :
    openNames given (name :: rest) = openNames given rest := by
  simp [openNames, hgiven]

/-- Once a placeholder is bound it is open no more. -/
theorem openNames_cons_of_not_has {given : Assoc String Value} {name : String} {rest : List String}
    (hopen : given.has (Placeholder.token name) = false) (value : Value) :
    openNames given (name :: rest) =
      name :: openNames (given ++ [(Placeholder.token name, value)]) rest := by
  have hhas : ∀ other, (given ++ [(Placeholder.token name, value)] : Assoc String Value).has
      (Placeholder.token other) = (given.has (Placeholder.token other) || other == name) := by
    intro other
    have hkey : Placeholder.token other = Placeholder.token name ↔ other = name :=
      token_injective.eq_iff
    rw [Bool.eq_iff_iff, Assoc.has_iff_mem_keys, Bool.or_eq_true, Assoc.has_iff_mem_keys, beq_iff_eq]
    simp [Assoc.keys, hkey]
  unfold openNames
  rw [List.filter_cons_of_pos (by simp [hopen]), List.eraseDups_cons, List.filter_filter]
  simp only [hhas, Bool.not_or, Bool.and_comm]

/-- The entry of a placeholder that is still open is put behind those that are given. -/
theorem evaluateEntries_placeholder {tag : TransTag} {given : Assoc String Value} {name : String}
    {expr : Expr} (hopen : given.has (Placeholder.token name) = false)
    (hvalue : expr.evaluate [transFilter catalog] context = tag.placeholderValue catalog context name) :
    Expr.evaluateEntries [transFilter catalog] context given [(.string (Placeholder.token name), expr)] =
      (fun value => given ++ [(Placeholder.token name, value)]) <$>
        tag.placeholderValue catalog context name := by
  have hnew : Placeholder.token name ∉ Assoc.keys given := by
    rw [← Assoc.has_iff_mem_keys, hopen]
    exact Bool.false_ne_true
  rw [Expr.evaluateEntries, hvalue]
  cases tag.placeholderValue catalog context name with
  | error error => rfl
  | ok value => exact congrArg Except.ok (Assoc.put_of_notMem value hnew)

/-- A placeholder that is open is the first of the names that are evaluated. -/
theorem openValues_cons {tag : TransTag} {given : Assoc String Value} {name : String}
    (hopen : given.has (Placeholder.token name) = false) (rest : List String) :
    (do
      let value ← tag.placeholderValue catalog context name
      let opened ← tag.openValues catalog context
        (openNames (given ++ [(Placeholder.token name, value)]) rest)
      return given ++ [(Placeholder.token name, value)] ++ opened) =
    (do
      let opened ← tag.openValues catalog context (openNames given (name :: rest))
      return given ++ opened) := by
  cases hstands : tag.placeholderValue catalog context name with
  | error error =>
      rw [openNames_cons_of_not_has hopen .null, openValues, List.mapM_cons, hstands]
      rfl
  | ok value =>
      rw [openNames_cons_of_not_has hopen value]
      unfold openValues
      rw [List.mapM_cons, hstands]
      simp only [map_ok, ok_bind, bind_assoc, pure_bind, List.append_assoc, List.singleton_append]

/-- Binding placeholders over entries evaluates the entries and then what the open ones stand for. -/
theorem evaluateEntries_foldl {tag : TransTag} (names : List String) {entries : List (Expr × Expr)}
    (hkeys : ∀ entry ∈ entries, entry.1.stringConstant?.isSome) :
    Expr.evaluateEntries [transFilter catalog] context []
        (names.foldl (bindPlaceholder tag.count) entries) =
      (do
        let given ← Expr.evaluateEntries [transFilter catalog] context [] entries
        let opened ← tag.openValues catalog context (openNames given names)
        return given ++ opened) := by
  induction names generalizing entries with
  | nil =>
      rw [List.foldl_nil]
      cases Expr.evaluateEntries [transFilter catalog] context [] entries with
      | error error => rfl
      | ok given => simp [openNames, openValues]
  | cons name rest ih =>
      rw [List.foldl_cons]
      cases hany : entries.any fun entry =>
          entry.1.stringConstant? == some (Placeholder.token name) with
      | true =>
          have hsame : bindPlaceholder tag.count entries name = entries := by
            unfold bindPlaceholder
            rw [if_pos hany]
          rw [hsame, ih hkeys]
          apply bind_congr_of_ok
          intro given hgiven
          have hhas : given.has (Placeholder.token name) = true := by
            rw [Expr.has_evaluateEntries hkeys hgiven, hany, Bool.or_true]
          rw [openNames_cons_of_has hhas]
      | false =>
          obtain ⟨expr, hbind, hvalue⟩ := exists_bindPlaceholder_eq catalog context hany
          have hstring : ∀ entry ∈ entries ++ [(.string (Placeholder.token name), expr)],
              entry.1.stringConstant?.isSome := by
            rw [List.forall_mem_append]
            exact ⟨hkeys, by simp [Expr.string, Expr.stringConstant?, Expr.constant?, Value.string?]⟩
          rw [hbind, ih hstring, Expr.evaluateEntries_append, bind_assoc]
          apply bind_congr_of_ok
          intro given hgiven
          have hopen : given.has (Placeholder.token name) = false := by
            rw [Expr.has_evaluateEntries hkeys hgiven, hany, Bool.or_false]
            rfl
          rw [evaluateEntries_placeholder hopen hvalue, bind_map_left]
          exact openValues_cons hopen rest

theorem evaluate_bindings (tag : TransTag) {own : List (Expr × Expr)}
    (hown : ∀ entry ∈ own, entry.1.stringConstant?.isSome) :
    (tag.bindings own).evaluate [transFilter catalog] context =
      .object <$> (do
        let given ← Expr.evaluateEntries [transFilter catalog] context [] own
        let opened ← tag.openValues catalog context (openNames given tag.placeholders)
        return given ++ opened) := by
  rw [bindings, Expr.evaluate, evaluateEntries_foldl _ hown]
  simp only [map_eq_pure_bind]

/-- An object with a value merged over it. -/
theorem merge_object (old : Assoc String Value) (value : Value) :
    (Value.object old).merge value = .object (old.putAll (membersOf value)) := by
  cases value <;> rfl

theorem replacementValues_of_map {tag : TransTag} {own : List (Expr × Expr)}
    (hvars : tag.vars = some (.map own)) :
    tag.replacementValues catalog context = do
      let given ← Expr.evaluateEntries [transFilter catalog] context [] own
      let opened ← tag.openValues catalog context (openNames given tag.placeholders)
      return given ++ opened := by
  unfold replacementValues givenValues
  rw [hvars]
  simp only [Expr.evaluate, membersOf, map_bind, map_pure, bind_assoc, pure_bind]

theorem replacementValues_of_not_map {tag : TransTag} (hmap : ∀ own, tag.vars ≠ some (.map own)) :
    tag.replacementValues catalog context = do
      let opened ← tag.openValues catalog context (openNames [] tag.placeholders)
      let given ← tag.givenValues catalog context
      return opened.putAll given := by
  unfold replacementValues
  split
  case h_1 own hvars => exact absurd hvars (hmap own)
  case h_2 => rfl

/-- The mapping that a tag compiles to is worth its replacements. -/
theorem evaluate_replacements_eq {tag : TransTag} (hkeys : tag.LiteralKeys) :
    tag.replacements.evaluate [transFilter catalog] context =
      .object <$> tag.replacementValues catalog context := by
  have hopened : (tag.bindings []).evaluate [transFilter catalog] context =
      .object <$> tag.openValues catalog context (openNames [] tag.placeholders) := by
    rw [evaluate_bindings tag (by simp)]
    simp [Expr.evaluateEntries]
  cases hvars : tag.vars with
  | none =>
      have hgiven : tag.givenValues catalog context = .ok [] := by rw [givenValues, hvars]
      rw [replacements_of_none hvars, hopened, replacementValues_of_not_map (by simp [hvars]), hgiven]
      cases tag.openValues catalog context (openNames [] tag.placeholders) <;> rfl
  | some vars =>
      by_cases hmap : ∃ own, vars = .map own
      · obtain ⟨own, rfl⟩ := hmap
        have hown : tag.writtenEntries = own := by rw [writtenEntries, hvars]
        rw [replacements_of_map hvars, evaluate_bindings tag (hown ▸ hkeys),
          replacementValues_of_map hvars]
      · have hgiven : tag.givenValues catalog context =
            membersOf <$> vars.evaluate [transFilter catalog] context := by rw [givenValues, hvars]
        have hother : ∀ own, tag.vars ≠ some (.map own) := by
          intro own heq
          exact hmap ⟨own, Option.some.inj (hvars.symm.trans heq)⟩
        rw [replacements_of_not_map hvars (not_exists.mp hmap), Expr.evaluate, hopened,
          replacementValues_of_not_map hother, hgiven]
        simp only [map_eq_pure_bind, bind_assoc, pure_bind, merge_object]

/-! ## What a key is bound to -/

theorem mem_openNames {given : Assoc String Value} {names : List String} {name : String} :
    name ∈ openNames given names ↔
      name ∈ names ∧ given.get? (Placeholder.token name) = none := by
  rw [openNames, List.mem_eraseDups, List.mem_filter, Bool.not_eq_true', Assoc.has,
    Option.isSome_eq_false_iff, Option.isNone_iff_eq_none]

/-- The values of placeholders, name by name. -/
theorem get?_openValues {tag : TransTag} {names : List String} {opened : Assoc String Value}
    (hopened : tag.openValues catalog context names = .ok opened) :
    (∀ name ∈ names, ∃ value, tag.placeholderValue catalog context name = .ok value ∧
      opened.get? (Placeholder.token name) = some value) ∧
    ∀ key, (∀ name ∈ names, Placeholder.token name ≠ key) → opened.get? key = none := by
  induction names generalizing opened with
  | nil =>
      obtain rfl : [] = opened := Except.ok.inj hopened
      exact ⟨by simp, fun _ _ => rfl⟩
  | cons name rest ih =>
      rw [openValues, List.mapM_cons] at hopened
      obtain ⟨entry, hentry, hopened⟩ := bind_eq_ok.mp hopened
      obtain ⟨value, hvalue, rfl⟩ := map_eq_ok.mp hentry
      obtain ⟨others, hothers, hopened⟩ := bind_eq_ok.mp hopened
      obtain rfl : (Placeholder.token name, value) :: others = opened := Except.ok.inj hopened
      obtain ⟨hbound, hfree⟩ := ih hothers
      refine ⟨?_, ?_⟩
      · intro other hother
        by_cases hsame : other = name
        · subst hsame
          exact ⟨value, hvalue, by simp [Assoc.get?]⟩
        · obtain ⟨found, hfound, hget⟩ := hbound other ((List.mem_cons.mp hother).resolve_left hsame)
          refine ⟨found, hfound, ?_⟩
          have hne : Placeholder.token name ≠ Placeholder.token other :=
            fun heq => hsame (token_injective heq).symm
          rw [Assoc.get?, if_neg hne, hget]
      · intro key hkey
        obtain ⟨hname, hrest⟩ := List.forall_mem_cons.mp hkey
        rw [Assoc.get?, if_neg hname, hfree key hrest]

/-- The replacements of a tag, told by what they bind: a key that the tag's own mapping gives has
the last value given for it, and any other placeholder has the value that it stands for. -/
structure Binds (catalog : Catalog) (context : Context) (tag : TransTag)
    (given replacements : Assoc String Value) : Prop where
  explicit : ∀ key value, (Assoc.ofPairs given).get? key = some value →
    replacements.get? key = some value
  placeholder : ∀ name ∈ tag.placeholders,
    (Assoc.ofPairs given).get? (Placeholder.token name) = none →
      ∃ value, tag.placeholderValue catalog context name = .ok value ∧
        replacements.get? (Placeholder.token name) = some value
  nothingElse : ∀ key, (Assoc.ofPairs given).get? key = none →
    (∀ name ∈ tag.placeholders, Placeholder.token name ≠ key) → replacements.get? key = none

/-- What a key is bound to by what is given and by placeholders behind it. -/
theorem binds_of_get?_eq {tag : TransTag} {given replacements opened : Assoc String Value}
    {names : List String} (hopened : tag.openValues catalog context names = .ok opened)
    (hget : ∀ key, replacements.get? key = ((Assoc.ofPairs given).get? key).or (opened.get? key))
    (hnames : ∀ name ∈ tag.placeholders,
      (Assoc.ofPairs given).get? (Placeholder.token name) = none → name ∈ names)
    (hsubset : ∀ name ∈ names, name ∈ tag.placeholders) :
    tag.Binds catalog context given replacements := by
  obtain ⟨hbound, hfree⟩ := get?_openValues hopened
  refine ⟨?_, ?_, ?_⟩
  · intro key value hvalue
    rw [hget, hvalue, Option.some_or]
  · intro name hname hnone
    obtain ⟨value, hvalue, hfound⟩ := hbound name (hnames name hname hnone)
    exact ⟨value, hvalue, by rw [hget, hnone, Option.none_or, hfound]⟩
  · intro key hnone hkey
    rw [hget, hnone, Option.none_or, hfree key fun name hname => hkey name (hsubset name hname)]

theorem binds_replacementValues {tag : TransTag} {replacements : Assoc String Value}
    (hvalues : tag.replacementValues catalog context = .ok replacements) :
    ∃ given, tag.givenValues catalog context = .ok given ∧
      tag.Binds catalog context given replacements := by
  by_cases hmap : ∃ own, tag.vars = some (.map own)
  · obtain ⟨own, hvars⟩ := hmap
    rw [replacementValues_of_map hvars] at hvalues
    obtain ⟨given, hgiven, hvalues⟩ := bind_eq_ok.mp hvalues
    obtain ⟨opened, hopened, hvalues⟩ := bind_eq_ok.mp hvalues
    obtain rfl : given ++ opened = replacements := Except.ok.inj hvalues
    have hkeys : (Assoc.keys ([] : Assoc String Value)).Nodup := List.nodup_nil
    have hnodup := Assoc.ofPairs_of_nodup (Expr.nodup_evaluateEntries hkeys hgiven)
    refine ⟨given, ?_, binds_of_get?_eq hopened ?_ ?_ ?_⟩
    · rw [givenValues, hvars]
      simp only [Expr.evaluate, hgiven]
      rfl
    · intro key
      rw [hnodup, Assoc.get?_append]
    · intro name hname hnone
      exact mem_openNames.mpr ⟨hname, hnodup ▸ hnone⟩
    · intro name hname
      exact (mem_openNames.mp hname).1
  · rw [replacementValues_of_not_map (not_exists.mp hmap)] at hvalues
    obtain ⟨opened, hopened, hvalues⟩ := bind_eq_ok.mp hvalues
    obtain ⟨given, hgiven, hvalues⟩ := bind_eq_ok.mp hvalues
    obtain rfl : opened.putAll given = replacements := Except.ok.inj hvalues
    refine ⟨given, hgiven, binds_of_get?_eq hopened ?_ ?_ ?_⟩
    · intro key
      rw [Assoc.get?_putAll_eq]
    · intro name hname _
      exact mem_openNames.mpr ⟨hname, rfl⟩
    · intro name hname
      exact (mem_openNames.mp hname).1

end TransTag

end Template

end TemplateMessages

import TemplateMessages.Proofs.FoundPlaceholders
import TemplateMessages.Proofs.Unescaping

/-!
# Placeholders of compiled messages

A placeholder that is found in a text is still there when the text is unescaped:
neither of its signs is white space, the first one has no other sign in front of it
that it could be paired with, and of the signs from the second one on at least one is
left.  The placeholders of a counted message are looked for in the message with its
plural behind it.  Each one stands in the message or in the plural, and so in what
that compiles to, or its first sign stands in the message and the second one in the
plural; then neither of the two has to contain it.
-/

namespace TemplateMessages

namespace Placeholder

/-- The token of the name stands in the text. -/
def Contains (text name : String) : Prop :=
  (token name).toList <:+: text.toList

instance (text name : String) : Decidable (Contains text name) :=
  inferInstanceAs (Decidable (_ <:+: _))

variable {text front rest name : List Char} {start : Nat}

theorem toList_token (name : String) : (token name).toList = '%' :: (name.toList ++ ['%']) := by
  simp [token]

/-- A text is taken apart around a placeholder. -/
theorem StandsAt.exists_split (hat : StandsAt text start name) :
    ∃ front rest, text = front ++ '%' :: (name ++ '%' :: rest) ∧ front.getLast? ≠ some '%' := by
  obtain ⟨rest, hrest⟩ := hat.token_isPrefix
  refine ⟨text.take start, rest, ?_, hat.notBehindSign⟩
  calc text = text.take start ++ text.drop start := (List.take_append_drop start text).symm
    _ = text.take start ++ '%' :: (name ++ '%' :: rest) := by rw [← hrest]; simp

theorem standsAt_of_split (hne : name ≠ []) (hfree : '%' ∉ name) (hfront : front.getLast? ≠ some '%')
    (rest : List Char) : StandsAt (front ++ '%' :: (name ++ '%' :: rest)) front.length name :=
  standsAt_length_iff.mpr ⟨rfl, hfront, name?_eq_some_iff.mpr ⟨hne, hfree, rest, by simp⟩⟩

/-! ## Signs made single -/

/-- A character that does not start a pair of signs is kept. -/
theorem halveSigns_cons {c : Char} (hpair : c = '%' → rest.head? ≠ some '%') :
    halveSigns (c :: rest) = c :: halveSigns rest := by
  rw [halveSigns]
  rintro behind rfl rfl
  exact hpair rfl rfl

/-- No pair of signs reaches over the end of a text that ends in none. -/
theorem halveSigns_append (hfront : front.getLast? ≠ some '%') (rest : List Char) :
    halveSigns (front ++ rest) = halveSigns front ++ halveSigns rest := by
  fun_induction halveSigns front with
  | case1 => rfl
  | case2 behind ih =>
      rw [List.cons_append, List.cons_append, halveSigns, ih, List.cons_append]
      cases behind with
      | nil => simp
      | cons c behind => simpa using hfront
  | case3 c behind hsigns ih =>
      rw [List.cons_append, halveSigns_cons, List.cons_append]
      · cases behind with
        | nil => rfl
        | cons next behind => rw [ih (by simpa using hfront)]
      · rintro rfl
        cases behind with
        | nil => simp at hfront
        | cons next behind =>
            intro hnext
            exact hsigns behind rfl (by simpa using hnext)

theorem halveSigns_of_notMem (hfree : '%' ∉ text) : halveSigns text = text := by
  rw [halveSigns_eq_self_iff]
  rintro ⟨before, behind, rfl⟩
  simp at hfree

/-- Of a run of signs at least one is left. -/
theorem exists_halveSigns_sign (rest : List Char) :
    ∃ more, halveSigns ('%' :: rest) = '%' :: more := by
  by_cases hpair : rest.head? = some '%'
  · obtain ⟨behind, rfl⟩ := List.head?_eq_some_iff.mp hpair
    exact ⟨halveSigns behind, by rw [halveSigns]⟩
  · exact ⟨halveSigns rest, halveSigns_cons fun _ => hpair⟩

theorem token_isInfix_halveSigns (hne : name ≠ []) (hfree : '%' ∉ name)
    (hfront : front.getLast? ≠ some '%') (rest : List Char) :
    '%' :: (name ++ ['%']) <:+: halveSigns (front ++ '%' :: (name ++ '%' :: rest)) := by
  obtain ⟨more, hmore⟩ := exists_halveSigns_sign rest
  have hfirst : (name ++ '%' :: rest).head? ≠ some '%' := by
    obtain ⟨c, others, rfl⟩ := List.exists_cons_of_ne_nil hne
    rw [List.mem_cons, not_or] at hfree
    simpa using Ne.symm hfree.1
  have hlast : name.getLast? ≠ some '%' := fun heq => hfree (List.mem_of_getLast? heq)
  refine ⟨halveSigns front, more, ?_⟩
  rw [halveSigns_append hfront, halveSigns_cons fun _ => hfirst, halveSigns_append hlast,
    halveSigns_of_notMem hfree, hmore]
  simp

/-! ## Trimming -/

/-- White space is taken off in front of a placeholder and behind it. -/
theorem exists_strip_eq (hfront : front.getLast? ≠ some '%') (rest : List Char) :
    ∃ front' rest', Text.strip Text.isBlank (front ++ '%' :: (name ++ '%' :: rest)) =
        front' ++ '%' :: (name ++ '%' :: rest') ∧ front'.getLast? ≠ some '%' := by
  have hsign : ¬ Text.isBlank '%' = true := by decide
  have hstart : Text.stripStart Text.isBlank (front ++ '%' :: (name ++ '%' :: rest)) =
      front.dropWhile Text.isBlank ++ '%' :: name ++ '%' :: rest := by
    rw [Text.stripStart, List.dropWhile_append]
    split
    case isTrue hnil =>
      rw [List.dropWhile_cons_of_neg hsign, List.isEmpty_iff.mp hnil, List.nil_append,
        List.cons_append]
    case isFalse => rw [List.append_assoc, List.cons_append]
  have hstop : Text.stripEnd Text.isBlank ('%' :: rest) = '%' :: Text.stripEnd Text.isBlank rest := by
    rw [Text.stripEnd_cons, if_neg (by simp [hsign])]
  refine ⟨front.dropWhile Text.isBlank, Text.stripEnd Text.isBlank rest, ?_, ?_⟩
  · rw [Text.strip, hstart, Text.stripEnd_append, hstop, if_neg (by simp)]
    simp
  · intro hlast
    obtain ⟨before, hbefore⟩ := List.dropWhile_suffix Text.isBlank (l := front)
    apply hfront
    rw [← hbefore, List.getLast?_append, hlast]
    rfl

theorem contains_unescape {text name : String} (hat : StandsAt text.toList start name.toList) :
    Contains (unescape text) name := by
  obtain ⟨front, rest, htext, hfront⟩ := hat.exists_split
  obtain ⟨front', rest', hstrip, hfront'⟩ := exists_strip_eq hfront rest
  rw [Contains, toList_token, toList_unescape, Text.toList_trim, htext, hstrip]
  exact token_isInfix_halveSigns hat.nonempty hat.signFree hfront' rest'

theorem exists_standsAt_of_mem_names {text name : String} (hname : name ∈ names text) :
    ∃ start, StandsAt text.toList start name.toList :=
  ((finds_iff text _).mpr rfl).exists_standsAt (List.mem_map_of_mem hname)

/-! ## One text behind another -/

/-- A placeholder of two texts stands in one of them, or it opens in the first and closes in the
second. -/
theorem StandsAt.of_append {first second : List Char}
    (hat : StandsAt (first ++ second) start name) :
    (∃ start, StandsAt first start name) ∨ (∃ start, StandsAt second start name) ∨
      ∃ front back, name = front ++ back ∧ '%' :: front <:+ first ∧ back ++ ['%'] <+: second := by
  obtain ⟨front, rest, htext, hfront⟩ := hat.exists_split
  have hsecond : ∀ before, before.getLast? ≠ some '%' →
      second = before ++ '%' :: (name ++ '%' :: rest) → ∃ start, StandsAt second start name := by
    rintro before hbefore rfl
    exact ⟨_, standsAt_of_split hat.nonempty hat.signFree hbefore rest⟩
  rcases List.append_eq_append_iff.mp htext with ⟨before, rfl, hbehind⟩ | ⟨inner, rfl, hinner⟩
  · -- The first text ends in front of the placeholder.
    refine .inr (.inl (hsecond before ?_ hbehind))
    intro hlast
    rw [List.getLast?_append, hlast] at hfront
    exact hfront rfl
  rcases List.cons_eq_append_iff.mp hinner with ⟨rfl, hbehind⟩ | ⟨inner, rfl, hname⟩
  · exact .inr (.inl (hsecond [] (by simp) hbehind))
  rcases List.append_eq_append_iff.mp hname with ⟨more, rfl, hmore⟩ | ⟨back, rfl, rfl⟩
  · rcases List.cons_eq_append_iff.mp hmore with ⟨rfl, rfl⟩ | ⟨more, rfl, rfl⟩
    · exact .inr (.inr ⟨name, [], by simp, ⟨front, by simp⟩, ⟨rest, by simp⟩⟩)
    · exact .inl ⟨_, standsAt_of_split hat.nonempty hat.signFree hfront more⟩
  · exact .inr (.inr ⟨inner, back, rfl, ⟨front, rfl⟩, ⟨rest, by simp⟩⟩)

end Placeholder

namespace Template

/-- The texts that a filter `trans` translates: its subject and its plural. -/
def Expr.forms : Expr → List String
  | .filter subject _ arguments _ =>
      subject.stringConstant?.toList ++
        ((findArgument arguments "plural").bind Expr.stringConstant?).toList
  | _ => []

namespace TransTag

/-- The placeholder opens in the message and closes in its plural. -/
def Straddles (tag : TransTag) (name : String) : Prop :=
  ∃ plural, tag.plural = some plural ∧
    ∃ front back, name.toList = front ++ back ∧
      '%' :: front <:+ tag.body.toList ∧ back ++ ['%'] <+: plural.toList

/-- The token of every placeholder that the tag binds stands in a text that the tag compiles to. -/
def KeepsTokens (tag : TransTag) : Prop :=
  ∀ name ∈ tag.placeholders, ∃ form ∈ tag.expression.forms, Placeholder.Contains form name

instance (tag : TransTag) : Decidable tag.KeepsTokens :=
  inferInstanceAs (Decidable (∀ name ∈ tag.placeholders, _))

theorem forms_expression {tag : TransTag} (hregular : tag.Regular) :
    tag.expression.forms =
      Placeholder.unescape tag.body :: (tag.plural.map Placeholder.unescape).toList := by
  have hboth := hregular.plural_isSome
  unfold expression
  cases hplural : tag.plural <;> cases hcount : tag.count
  case none.none => rfl
  case some.some => rfl
  all_goals
    rw [hplural, hcount] at hboth
    cases hboth

/-- The token of a placeholder stands in what the message or its plural compiles to, unless the
placeholder opens in the one and closes in the other. -/
theorem straddles_or_contains {tag : TransTag} (hregular : tag.Regular) {name : String}
    (hname : name ∈ tag.placeholders) :
    tag.Straddles name ∨ ∃ form ∈ tag.expression.forms, Placeholder.Contains form name := by
  obtain ⟨start, hat⟩ := Placeholder.exists_standsAt_of_mem_names hname
  rw [String.toList_append] at hat
  rw [forms_expression hregular]
  cases hplural : tag.plural with
  | none =>
      rw [hplural, Option.getD_none, String.toList_empty, List.append_nil] at hat
      exact .inr ⟨_, List.mem_cons_self, Placeholder.contains_unescape hat⟩
  | some plural =>
      rw [hplural, Option.getD_some] at hat
      rcases hat.of_append with ⟨_, hbody⟩ | ⟨_, hother⟩ | ⟨front, back, hsplit, hfront, hback⟩
      · exact .inr ⟨_, List.mem_cons_self, Placeholder.contains_unescape hbody⟩
      · exact .inr ⟨_, by simp, Placeholder.contains_unescape hother⟩
      · exact .inl ⟨plural, hplural, front, back, hsplit, hfront, hback⟩

end TransTag

/-- The names of a text are those that the search for placeholders finds, and the token of each one
stands in the unescaped text too.  In a template each placeholder that a tag binds stands in what the
message or its plural compiles to, unless it opens in the message and closes in the plural. -/
theorem placeholders_found_and_kept (text : String) (session : Session) (source : Source) :
    (∀ found, Placeholder.Finds text.toList 0 found ↔
      found = (Placeholder.names text).map String.toList) ∧
    (∀ name ∈ Placeholder.names text, Placeholder.Contains (Placeholder.unescape text) name) ∧
    ∀ node, (session.parse source).1 = .ok node → ∀ tag ∈ node.tags, ∀ name ∈ tag.placeholders,
      tag.Straddles name ∨ ∃ form ∈ tag.expression.forms, Placeholder.Contains form name := by
  refine ⟨Placeholder.finds_iff text, ?_, ?_⟩
  · intro name hname
    obtain ⟨start, hat⟩ := Placeholder.exists_standsAt_of_mem_names hname
    exact Placeholder.contains_unescape hat
  · intro node hparse tag htag name hname
    exact TransTag.straddles_or_contains (Session.regular_parse hparse tag htag) hname

/-- A placeholder between white space and a doubled sign. -/
theorem placeholders_found_and_kept_spaced :
    ∃ tag, ((Session.start (.empty "en")).parse
        ⟨"\x7b% trans %\x7d %name% is 100%% sure \x7b% endtrans %\x7d", none⟩).1 = .ok (.trans tag) ∧
      "name" ∈ Placeholder.names tag.body ∧ "name" ∈ tag.placeholders ∧
      Placeholder.Contains (Placeholder.unescape tag.body) "name" ∧
      ∃ form ∈ tag.expression.forms, Placeholder.Contains form "name" := by
  have hread : (onlyTag? ((Session.start (.empty "en")).parse
      ⟨"\x7b% trans %\x7d %name% is 100%% sure \x7b% endtrans %\x7d", none⟩).1).any
        (fun tag => tag.plural.isNone &&
          decide ("name" ∈ Placeholder.names tag.body ∧ "name" ∈ tag.placeholders)) = true := by
    decide +kernel
  obtain ⟨tag, hparse, htest⟩ := eq_ok_of_any_onlyTag hread
  rw [Bool.and_eq_true, Option.isNone_iff_eq_none, decide_eq_true_eq] at htest
  obtain ⟨hplural, hname, hbound⟩ := htest
  obtain ⟨-, hkept, hbinds⟩ := placeholders_found_and_kept tag.body (.start (.empty "en"))
    ⟨"\x7b% trans %\x7d %name% is 100%% sure \x7b% endtrans %\x7d", none⟩
  refine ⟨tag, hparse, hname, hbound, hkept _ hname, ?_⟩
  refine (hbinds _ hparse tag (by simp) _ hbound).resolve_left ?_
  rintro ⟨plural, hsome, -⟩
  rw [hplural] at hsome
  cases hsome

/-- Between the sign of a message and the one of its plural a name is found and bound that neither of
the two contains. -/
theorem Session.straddling_placeholder_not_kept :
    ∃ tag, ((start (.empty "en")).parse
        ⟨"\x7b% trans count n %\x7d50% off|20% off\x7b% endtrans %\x7d", none⟩).1 = .ok (.trans tag) ∧
      tag.HasEntry " off20" ∧ ¬ tag.KeepsTokens := by
  have hread : (onlyTag? ((start (.empty "en")).parse
      ⟨"\x7b% trans count n %\x7d50% off|20% off\x7b% endtrans %\x7d", none⟩).1).any
        (fun tag => decide (tag.HasEntry " off20" ∧ ¬ tag.KeepsTokens)) = true := by
    decide +kernel
  obtain ⟨tag, hparse, htest⟩ := eq_ok_of_any_onlyTag hread
  exact ⟨tag, hparse, of_decide_eq_true htest⟩

end Template

end TemplateMessages

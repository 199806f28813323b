import TemplateMessages.Proofs.ParsedTags
import TemplateMessages.Proofs.Requests
import TemplateMessages.Proofs.Unescaping

/-!
# What a trans tag files and what it looks up

A trans tag reaches the translations on two ways: the message that is recorded
for it is filed as an entry, and the filter that it compiles to looks a text up.
Domain and context are the same on both.  The texts are not always: the entry
keeps a doubled percent sign, and a plural its outer white space, while the
lookup is made with what the text stands for.
-/

namespace TemplateMessages.Template

open TemplateMessages.Gettext (Catalog Request)

variable {catalog : Catalog} {context : Context}

/-! ## The replacements of a tag -/

theorem Expr.evaluateEntries_append (filters : List Filter) (context : Context)
    (members : Assoc String Value) (first second : List (Expr × Expr)) :
    evaluateEntries filters context members (first ++ second) =
      evaluateEntries filters context members first >>= fun members =>
        evaluateEntries filters context members second := by
  induction first generalizing members with
  | nil => rfl
  | cons entry rest ih =>
      obtain ⟨key, value⟩ := entry
      simp only [List.cons_append, evaluateEntries, bind_assoc, ih]

/-- The entries have values, one after the other. -/
def EntriesEvaluate (catalog : Catalog) (context : Context) (entries : List (Expr × Expr)) : Prop :=
  ∃ members, Expr.evaluateEntries [transFilter catalog] context [] entries = .ok members

theorem entriesEvaluate_of_map {entries : List (Expr × Expr)}
    (hvalue : (Expr.map entries).Evaluates catalog context) :
    EntriesEvaluate catalog context entries := by
  obtain ⟨value, hvalue⟩ := hvalue
  rw [Expr.evaluate] at hvalue
  obtain ⟨members, hmembers, -⟩ := bind_eq_ok.mp hvalue
  exact ⟨members, hmembers⟩

namespace TransTag

/-- Binding a placeholder adds at most a variable or the count. -/
theorem entriesEvaluate_bindPlaceholder {count : Option Expr} {entries : List (Expr × Expr)}
    (hcount : ∀ expr, count = some expr → expr.Evaluates catalog context)
    (hentries : EntriesEvaluate catalog context entries) (name : String) :
    EntriesEvaluate catalog context (bindPlaceholder count entries name) := by
  have hadded : ∀ expr : Expr, expr.Evaluates catalog context →
      EntriesEvaluate catalog context (entries ++ [(.string (Placeholder.token name), expr)]) := by
    rintro expr ⟨value, hvalue⟩
    obtain ⟨members, hmembers⟩ := hentries
    refine ⟨members.put (Placeholder.token name) value, ?_⟩
    rw [Expr.evaluateEntries_append, hmembers]
    simp only [Expr.evaluateEntries, Expr.string, Expr.evaluate, hvalue]
    rfl
  have hname : (Expr.name name).Evaluates catalog context := ⟨_, rfl⟩
  simp only [bindPlaceholder]
  cases entries.any fun entry =>
      entry.1.stringConstant? == some (Placeholder.token name) with
  | true => exact hentries
  | false =>
      cases count with
      | none => exact hadded _ hname
      | some expr =>
          by_cases hcounted : name = "count"
          · simpa [hcounted] using hadded expr (hcount expr rfl)
          · simpa [hcounted] using hadded _ hname

theorem entriesEvaluate_foldl {count : Option Expr}
    (hcount : ∀ expr, count = some expr → expr.Evaluates catalog context) (names : List String)
    {entries : List (Expr × Expr)} (hentries : EntriesEvaluate catalog context entries) :
    EntriesEvaluate catalog context (names.foldl (bindPlaceholder count) entries) := by
  induction names generalizing entries with
  | nil => exact hentries
  | cons name rest ih =>
      apply ih
      exact entriesEvaluate_bindPlaceholder hcount hentries name

/-- The mapping that binds the placeholders on top of entries of the tag's own. -/
def bindings (tag : TransTag) (own : List (Expr × Expr)) : Expr :=
  .map (tag.placeholders.foldl (bindPlaceholder tag.count) own)

theorem replacements_of_none {tag : TransTag} (hvars : tag.vars = none) :
    tag.replacements = tag.bindings [] := by
  simp [replacements, hvars, bindings]

theorem replacements_of_map {tag : TransTag} {own : List (Expr × Expr)}
    (hvars : tag.vars = some (.map own)) : tag.replacements = tag.bindings own := by
  simp [replacements, hvars, bindings]

theorem replacements_of_not_map {tag : TransTag} {vars : Expr} (hvars : tag.vars = some vars)
    (hmap : ∀ own, vars ≠ .map own) : tag.replacements = .merge (tag.bindings []) vars := by
  cases vars with
  | map own => exact absurd rfl (hmap own)
  | _ => simp [replacements, hvars, bindings]

/-- Replacements are an object whenever the count and the tag's own replacements have values. -/
theorem evaluate_replacements {tag : TransTag}
    (hcount : ∀ expr, tag.count = some expr → expr.Evaluates catalog context)
    (hvars : ∀ expr, tag.vars = some expr → expr.Evaluates catalog context) :
    ∃ members, tag.replacements.evaluate [transFilter catalog] context = .ok (.object members) := by
  have hbindings : ∀ own, EntriesEvaluate catalog context own →
      ∃ members, (tag.bindings own).evaluate [transFilter catalog] context =
        .ok (.object members) := by
    intro own hown
    obtain ⟨members, hmembers⟩ := entriesEvaluate_foldl hcount tag.placeholders hown
    exact ⟨members, by rw [bindings, Expr.evaluate, hmembers]; rfl⟩
  have hempty : EntriesEvaluate catalog context [] := ⟨[], rfl⟩
  cases hgiven : tag.vars with
  | none =>
      rw [replacements_of_none hgiven]
      exact hbindings [] hempty
  | some vars =>
      by_cases hmap : ∃ own, vars = .map own
      · obtain ⟨own, rfl⟩ := hmap
        rw [replacements_of_map hgiven]
        exact hbindings own (entriesEvaluate_of_map (hvars _ hgiven))
      · rw [replacements_of_not_map hgiven (not_exists.mp hmap)]
        obtain ⟨members, hmembers⟩ := hbindings [] hempty
        obtain ⟨value, hvalue⟩ := hvars vars hgiven
        rw [Expr.evaluate, hmembers, hvalue]
        cases value with
        | object new => exact ⟨_, rfl⟩
        | _ => exact ⟨members, rfl⟩

end TransTag

/-! ## Arguments by position -/

theorem setPlace_length (value : Value) (values : List Value) :
    setPlace value values.length values = values ++ [value] := by
  induction values with
  | nil => rfl
  | cons first rest ih => simp [setPlace, ih]

/-- Arguments without names are bound to their values in order. -/
theorem Expr.bindArguments_positional (filter : Filter) {filters : List Filter}
    {exprs : List Expr} {added : List Value}
    (hvalues : List.Forall₂ (fun expr value => expr.evaluate filters context = .ok value) exprs added)
    (values : List Value) :
    bindArguments filters context filter values.length values (exprs.map .positional) =
      .ok (values ++ added) := by
  induction hvalues generalizing values with
  | nil => simp [bindArguments]
  | @cons expr value exprs added hvalue _ ih =>
      have hrest := ih (values ++ [value])
      rw [List.length_append, List.append_assoc, ← setPlace_length] at hrest
      rw [List.map_cons, Argument.positional, bindArguments, hvalue]
      exact hrest

namespace TransTag

/-! ## The request of a tag -/

/-- A text that may be missing, as a value. -/
def optionalText : Option String → Value
  | some text => .string text
  | none => .null

theorem textOf_optionalText (text : Option String) : textOf (optionalText text) = text := by
  cases text <;> rfl

/-- The operands of the filter that a tag in a domain compiles to. -/
def operands (tag : TransTag) (domain : String) : List Expr :=
  [tag.replacements, .string domain, .constant (optionalText tag.context)] ++
    match tag.plural, tag.count with
    | some plural, some count => [.string (Placeholder.unescape plural), count]
    | _, _ => []

theorem expression_eq {tag : TransTag} (hregular : tag.Regular) {domain : String}
    (hdomain : tag.domain.getD (.string defaultDomain) = .string domain) :
    tag.expression = .filter (.string (Placeholder.unescape tag.body)) filterName
      ((tag.operands domain).map .positional) tag.line := by
  unfold expression operands
  rw [hdomain]
  cases hcontext : tag.context with
  | none => cases tag.plural <;> cases tag.count <;> rfl
  | some text =>
      have htrim := hregular.trim_context text hcontext
      cases tag.plural <;> cases tag.count <;> simp [htrim, optionalText, Expr.string]

/-- The count is a value that the filter takes for a count, as every non-negative integer is. -/
def Counts (catalog : Catalog) (context : Context) (tag : TransTag) : Prop :=
  ∀ expr, tag.count = some expr → ∃ value n,
    expr.evaluate [transFilter catalog] context = .ok value ∧ countOf value = .ok (some n)

/-- The expression has a value that is taken for a count. -/
def isCount (catalog : Catalog) (context : Context) (expr : Expr) : Bool :=
  match expr.evaluate [transFilter catalog] context with
  | .ok value =>
      match countOf value with
      | .ok (some _) => true
      | _ => false
  | .error _ => false

theorem isCount_iff {expr : Expr} : isCount catalog context expr = true ↔ ∃ value n,
    expr.evaluate [transFilter catalog] context = .ok value ∧ countOf value = .ok (some n) := by
  unfold isCount
  cases expr.evaluate [transFilter catalog] context with
  | error error => simp
  | ok value =>
      cases hcount : countOf value with
      | error error => simp [hcount]
      | ok count => cases count <;> simp [hcount]

instance decidableCounts (tag : TransTag) : Decidable (tag.Counts catalog context) :=
  decidable_of_iff (tag.count.all (isCount catalog context) = true) (by
    simp only [Option.all_eq_true, Counts, isCount_iff])

/-- With values for its replacements a tag asks for its domain, its context and what its texts
stand for. -/
theorem request?_expression {tag : TransTag} (hregular : tag.Regular) {domain : String}
    (hdomain : tag.domain.getD (.string defaultDomain) = .string domain)
    (hcount : tag.Counts catalog context) {value : Value}
    (hvalue : tag.replacements.evaluate [transFilter catalog] context = .ok value) :
    ∃ count : Option Nat, count.isSome = tag.plural.isSome ∧
      tag.expression.request? catalog context = some ((replacementsOf value).map fun replacements =>
        ⟨Placeholder.unescape tag.body, replacements, some domain, tag.context,
          tag.plural.map Placeholder.unescape, count⟩) := by
  have hrequest : ∀ (added : List Value) (count : Option Nat),
      List.Forall₂ (fun expr value => expr.evaluate [transFilter catalog] context = .ok value)
        (tag.operands domain) added →
      countOf (slot added 4) = .ok count →
      tag.expression.request? catalog context =
        some ((replacementsOf (slot added 0)).map fun replacements =>
          ⟨Placeholder.unescape tag.body, replacements, textOf (slot added 1),
            textOf (slot added 2), textOf (slot added 3), count⟩) := by
    intro added count hadded hcounted
    have hbind := Expr.bindArguments_positional (transFilter catalog) hadded []
    rw [List.nil_append, List.length_nil] at hbind
    rw [expression_eq hregular hdomain, Expr.request?, if_pos rfl, hbind, Expr.string, Expr.evaluate]
    exact congrArg some (transRequest_of_count hcounted)
  have hcontext := textOf_optionalText tag.context
  cases hplural : tag.plural with
  | none =>
      refine ⟨none, rfl, ?_⟩
      have := hrequest [value, .string domain, optionalText tag.context] none
        (by simp [operands, hplural, hvalue, Expr.string, Expr.evaluate]) rfl
      simpa [slot, hcontext] using this
  | some plural =>
      obtain ⟨expr, hexpr⟩ : ∃ expr, tag.count = some expr := by
        simpa [hplural, Option.isSome_iff_exists] using hregular.plural_isSome.symm
      obtain ⟨counted, n, hcounted, hn⟩ := hcount expr hexpr
      refine ⟨some n, rfl, ?_⟩
      have := hrequest [value, .string domain, optionalText tag.context,
          .string (Placeholder.unescape plural), counted] (some n)
        (by simp [operands, hplural, hexpr, hvalue, hcounted, Expr.string, Expr.evaluate]) hn
      simpa [slot, hcontext] using this

/-- A request is only made once the replacements have a value. -/
theorem evaluates_of_request? {tag : TransTag} {request : Request}
    (hrequest : tag.expression.request? catalog context = some (.ok request)) :
    tag.replacements.Evaluates catalog context := by
  rw [expression, Expr.request?, if_pos rfl] at hrequest
  obtain ⟨_, _, hrequest⟩ := bind_eq_ok.mp (Option.some.inj hrequest)
  obtain ⟨_, hbind, _⟩ := bind_eq_ok.mp hrequest
  obtain ⟨_, _, hbind⟩ := bind_eq_ok.mp hbind
  obtain ⟨value, hvalue, _⟩ := bind_eq_ok.mp hbind
  exact ⟨value, hvalue⟩

theorem request?_expression_isSome (tag : TransTag) (catalog : Catalog) (context : Context) :
    ∃ outcome, tag.expression.request? catalog context = some outcome := by
  rw [expression, Expr.request?, if_pos rfl]
  exact ⟨_, rfl⟩

/-- A counted lookup carries the plural of the tag. -/
theorem map_counted_eq {plural : Option String} {count : Option Nat}
    (hcounted : count.isSome = plural.isSome) (domain : String) (context : Option String)
    (original : String) :
    (Gettext.Lookup.ofRequest (some domain) context original (plural.map Placeholder.unescape)
      count).counted.map Prod.fst = plural.map Placeholder.unescape := by
  cases plural <;> cases count <;> simp_all [Gettext.Lookup.ofRequest]

/-- The domain that a tag asks for, when it is known without rendering. -/
def knownDomain (tag : TransTag) (domain : String) : Prop :=
  tag.domain = none ∧ domain = defaultDomain ∨ domain ≠ "" ∧ tag.domain = some (.string domain)

theorem getD_domain_of_knownDomain {tag : TransTag} {domain : String}
    (hknown : tag.knownDomain domain) :
    tag.domain.getD (.string defaultDomain) = .string domain := by
  rcases hknown with ⟨hnone, rfl⟩ | ⟨-, hsome⟩
  · rw [hnone, Option.getD_none]
  · rw [hsome, Option.getD_some]

theorem filedUnder_of_knownDomain {tag : TransTag} {domain : String}
    (hknown : tag.knownDomain domain) :
    (Message.ofTag tag).filedUnder defaultDomain = domain := by
  rcases hknown with ⟨hnone, rfl⟩ | ⟨hne, hsome⟩
  · simp [Message.ofTag, Message.filedUnder, hnone]
  · simp [Message.ofTag, Message.filedUnder, hsome, MessageDomain.ofExpr, Expr.string,
      Expr.constant?, Value.display, hne]

end TransTag

/-- A lookup is made with the domain and the context of an entry and with what its texts stand
for.  These are the filed texts themselves exactly when they are trimmed and have no doubled
percent sign; a filed original is always trimmed. -/
structure AsksFor (lookup : Gettext.Lookup) (domain : String)
    (translation : Catalogue.Translation) : Prop where
  domain : lookup.domain = some domain
  context : lookup.context = translation.key.context
  original : lookup.original = Placeholder.unescape translation.key.original
  plural : lookup.counted.map Prod.fst = translation.details.plural.map Placeholder.unescape
  original_eq_iff : lookup.original = translation.key.original ↔
    ¬ Placeholder.Doubled translation.key.original
  plural_eq_iff : lookup.counted.map Prod.fst = translation.details.plural ↔
    ∀ plural, translation.details.plural = some plural →
      Text.trim plural = plural ∧ ¬ Placeholder.Doubled plural

theorem asksFor_of_tag {tag : TransTag} {count : Option Nat}
    (hcounted : count.isSome = tag.plural.isSome) (domain path : String) :
    AsksFor (.ofRequest (some domain) tag.context (Placeholder.unescape tag.body)
        (tag.plural.map Placeholder.unescape) count) domain
      ⟨(Message.ofTag tag).key, (Message.ofTag tag).details path⟩ := by
  have horiginal := Placeholder.unescape_trim tag.body
  have hplural := TransTag.map_counted_eq hcounted domain tag.context
    (Placeholder.unescape tag.body)
  refine ⟨rfl, rfl, horiginal.symm, hplural, ?_, ?_⟩
  · have hself : Placeholder.unescape (Text.trim tag.body) = Text.trim tag.body ↔ _ :=
      Placeholder.unescape_eq_self_iff
    rw [horiginal, Text.trim_trim, and_iff_right rfl] at hself
    exact hself
  · rw [hplural]
    cases htext : tag.plural with
    | none => simp [Message.ofTag, Message.details, htext]
    | some plural => simp [Message.ofTag, Message.details, htext, Placeholder.unescape_eq_self_iff]

/-- Every tag of a template that has been read is recorded and printed, and the lookup that
printing makes asks for the entry that is filed for it.  The lookup is made whenever the
replacements of the tag have values. -/
theorem Session.filing_and_lookup_of_tag {session : Session} {source : Source} {node : Node}
    {tag : TransTag} (hparse : (session.parse source).1 = .ok node) (htag : tag ∈ node.tags)
    (hdomain : tag.domain = none ∨ ∃ domain, domain ≠ "" ∧ tag.domain = some (.string domain))
    (hcount : tag.Counts catalog context) (path : String) :
    Message.ofTag tag ∈ Message.ofNode node ∧
    .print tag.expression ∈ node.program ∧
    ∃ domain translation outcome,
      (Catalogues.ofMessages TransTag.defaultDomain path [Message.ofTag tag]).filings =
        [(domain, translation)] ∧
      tag.expression.request? catalog context = some outcome ∧
      tag.expression.evaluate [transFilter catalog] context =
        (fun request => .string (catalog.translate request)) <$> outcome ∧
      ((∀ expr, tag.vars = some expr → expr.Evaluates catalog context) →
        ∃ request, outcome = .ok request) ∧
      ∀ request, outcome = .ok request → AsksFor request.lookup domain translation := by
  have hregular : tag.Regular := Session.regular_parse hparse tag htag
  obtain ⟨domain, hknown⟩ : ∃ domain, tag.knownDomain domain :=
    hdomain.elim (fun hnone => ⟨_, .inl ⟨hnone, rfl⟩⟩)
      (fun ⟨domain, hsome⟩ => ⟨domain, .inr hsome⟩)
  have hliteral := TransTag.getD_domain_of_knownDomain hknown
  obtain ⟨outcome, houtcome⟩ := tag.request?_expression_isSome catalog context
  refine ⟨Node.ofTag_mem_ofNode htag, Node.print_mem_program htag, domain,
    ⟨(Message.ofTag tag).key, (Message.ofTag tag).details path⟩, outcome, ?_, houtcome,
    Expr.evaluate_of_request? catalog context houtcome, ?_, ?_⟩
  · rw [Catalogues.filings_ofMessages_singleton, TransTag.filedUnder_of_knownDomain hknown]
  · intro hvars
    have hvalues : ∀ expr, tag.count = some expr → expr.Evaluates catalog context := by
      intro expr hexpr
      obtain ⟨value, _, hvalue, _⟩ := hcount expr hexpr
      exact ⟨value, hvalue⟩
    obtain ⟨members, hmembers⟩ := TransTag.evaluate_replacements hvalues hvars
    obtain ⟨count, -, hrequest⟩ := TransTag.request?_expression hregular hliteral hcount hmembers
    obtain rfl := Option.some.inj (houtcome.symm.trans hrequest)
    exact ⟨_, rfl⟩
  · rintro request rfl
    obtain ⟨value, hvalue⟩ := TransTag.evaluates_of_request? houtcome
    obtain ⟨count, hcounted, hrequest⟩ :=
      TransTag.request?_expression hregular hliteral hcount hvalue
    obtain ⟨replacements, -, rfl⟩ := map_eq_ok.mp (Option.some.inj (hrequest.symm.trans houtcome))
    exact asksFor_of_tag hcounted domain path

/-- The tag of a template that is nothing but a trans tag. -/
def onlyTag? : Except TemplateError Node → Option TransTag
  | .ok (.trans tag) => some tag
  | _ => none

theorem eq_ok_of_any_onlyTag {outcome : Except TemplateError Node} {test : TransTag → Bool}
    (htest : (onlyTag? outcome).any test = true) :
    ∃ tag, outcome = .ok (.trans tag) ∧ test tag = true := by
  unfold onlyTag? at htest
  split at htest
  case h_1 tag => exact ⟨tag, rfl, htest⟩
  case h_2 => cases htest

/-- A tag with a count, a context and a doubled percent sign that does not end its text. -/
theorem Session.filing_and_lookup_of_counted_tag :
    ∃ node tag,
      ((start (.empty "en")).parse
        ⟨"\x7b% trans count n %\x7da%%|b\x7b% context %\x7d c\x7b% endtrans %\x7d", none⟩).1 =
          .ok node ∧
      tag ∈ node.tags ∧ tag.domain = none ∧
      tag.Counts (.empty "en") [("n", .number (.integer 2))] ∧
      ∃ domain translation outcome,
        (Catalogues.ofMessages TransTag.defaultDomain "a.twig" [Message.ofTag tag]).filings =
          [(domain, translation)] ∧
        tag.expression.request? (.empty "en") [("n", .number (.integer 2))] = some outcome ∧
        (∃ request, outcome = .ok request) ∧
        ∀ request, outcome = .ok request → AsksFor request.lookup domain translation := by
  have hread : (onlyTag? ((start (.empty "en")).parse
      ⟨"\x7b% trans count n %\x7da%%|b\x7b% context %\x7d c\x7b% endtrans %\x7d", none⟩).1).any
        (fun tag => tag.domain.isNone && tag.vars.isNone &&
          decide (tag.Counts (.empty "en") [("n", .number (.integer 2))])) = true := by
    decide +kernel
  obtain ⟨tag, hparse, htest⟩ := eq_ok_of_any_onlyTag hread
  simp only [Bool.and_eq_true, Option.isNone_iff_eq_none, decide_eq_true_eq] at htest
  obtain ⟨⟨hdomain, hvars⟩, hcount⟩ := htest
  have hmem : tag ∈ Node.tags (.trans tag) := by
    rw [Node.tags, Node.walk]
    exact List.mem_cons_self
  obtain ⟨-, -, domain, translation, outcome, hfiled, houtcome, -, hmade, hasks⟩ :=
    filing_and_lookup_of_tag hparse hmem (.inl hdomain) hcount "a.twig"
  have hmade := hmade fun expr hexpr => by
    rw [hvars] at hexpr
    cases hexpr
  exact ⟨_, tag, hparse, hmem, hdomain, hcount, domain, translation, outcome, hfiled, houtcome,
    hmade, hasks⟩

/-- The tag asks for these two texts. -/
def TransTag.asksForTexts (catalog : Catalog) (context : Context) (original plural : String)
    (tag : TransTag) : Bool :=
  match tag.expression.request? catalog context with
  | some (.ok request) =>
      request.lookup.original == original &&
        request.lookup.counted.map Prod.fst == some plural
  | _ => false

/-- The texts are not always the same: a doubled percent sign and the outer white space of a
plural are filed as they are written, and are not looked up. -/
theorem Session.filed_texts_not_looked_up :
    ∃ tag domain translation request,
      ((start (.empty "en")).parse
        ⟨"\x7b% trans count n %\x7da%%|\u00a0b\x7b% endtrans %\x7d", none⟩).1 = .ok (.trans tag) ∧
      tag.domain = none ∧ tag.Counts (.empty "en") [("n", .number (.integer 2))] ∧
      (Catalogues.ofMessages TransTag.defaultDomain "a.twig" [Message.ofTag tag]).filings =
        [(domain, translation)] ∧
      tag.expression.request? (.empty "en") [("n", .number (.integer 2))] = some (.ok request) ∧
      translation.key.original = "a%%" ∧ request.lookup.original = "a%" ∧
      translation.details.plural = some "\u00a0b" ∧
      request.lookup.counted.map Prod.fst = some "b" := by
  have hread : (onlyTag? ((start (.empty "en")).parse
      ⟨"\x7b% trans count n %\x7da%%|\u00a0b\x7b% endtrans %\x7d", none⟩).1).any
        (fun tag => tag.domain.isNone && tag.body == "a%%" && tag.plural == some "\u00a0b" &&
          decide (tag.Counts (.empty "en") [("n", .number (.integer 2))]) &&
          tag.asksForTexts (.empty "en") [("n", .number (.integer 2))] "a%" "b") = true := by
    decide +kernel
  obtain ⟨tag, hparse, htest⟩ := eq_ok_of_any_onlyTag hread
  simp only [Bool.and_eq_true, Option.isNone_iff_eq_none, decide_eq_true_eq, beq_iff_eq] at htest
  obtain ⟨⟨⟨⟨hdomain, hbody⟩, hplural⟩, hcount⟩, hasked⟩ := htest
  unfold TransTag.asksForTexts at hasked
  split at hasked
  case h_1 request hrequest =>
    simp only [Bool.and_eq_true, beq_iff_eq] at hasked
    refine ⟨tag, _, _, request, hparse, hdomain, hcount,
      Catalogues.filings_ofMessages_singleton _ _ _, hrequest, ?_, hasked.1, hplural, hasked.2⟩
    show Text.trim tag.body = "a%%"
    rw [hbody]
    decide
  case h_2 => cases hasked

end TemplateMessages.Template

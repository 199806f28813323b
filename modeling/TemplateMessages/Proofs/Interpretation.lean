import TemplateMessages.Proofs.OpenPlaceholders

/-!
# Direct interpretation

A template is rendered by a program, and it can be rendered without one: a walk
over its tree yields the text of each node from the variables that are known when
the walk comes to it.  Both ways give the same text, or the same error.  A trans
tag needs the most care on the way, since its program is a filter whose
replacements are put together in part when the tag is compiled and in part when
the program runs.
-/

namespace TemplateMessages.Template

open TemplateMessages.Gettext (Catalog)

section Interpreter

variable (catalog : Catalog)

namespace TransTag

variable (context : Context) (tag : TransTag)

/-- The domain that a tag asks for: null asks for none. -/
def domainValue : Except RenderError (Option String) :=
  match tag.domain with
  | none => .ok (some defaultDomain)
  | some domain => textOf <$> domain.evaluate [transFilter catalog] context

/-- The count of a tag: null is none. -/
def countValue : Except RenderError (Option Nat) :=
  match tag.count with
  | none => .ok none
  | some count => count.evaluate [transFilter catalog] context >>= countOf

/-- The text of a tag: its message in translation, with the values of the replacements. -/
def interpret : Except RenderError String := do
  let replacements ← tag.replacementValues catalog context
  let domain ← tag.domainValue catalog context
  let count ← tag.countValue catalog context
  return catalog.translate ⟨Placeholder.unescape tag.body,
    replacements.map fun entry => (entry.1, entry.2.display), domain, tag.context,
    tag.plural.map Placeholder.unescape, count⟩

/-- What a tag prints.  A tag whose mapping is written out with keys that have to be computed is
left to its filter. -/
def printed : Except RenderError String :=
  if tag.LiteralKeys then tag.interpret catalog context
  else Value.display <$> tag.expression.evaluate [transFilter catalog] context

end TransTag

namespace Node

mutual

/-- The text of a node and the variables behind it. -/
def interpret (context : Context) : Node → Except RenderError (String × Context)
  | .text data _ => .ok (data, context)
  | .print expr _ => do
      let value ← expr.evaluate [transFilter catalog] context
      return (value.display, context)
  | .set name value _ => do
      let value ← value.evaluate [transFilter catalog] context
      return ("", context.put name value)
  | .body nodes _ => interpretAll context nodes
  | .trans tag => do
      let text ← tag.printed catalog context
      return (text, context)
  | .defaultDomain _ _ => .ok ("", context)

/-- The text of nodes, each with the variables that the one in front of it leaves. -/
def interpretAll (context : Context) : List Node → Except RenderError (String × Context)
  | [] => .ok ("", context)
  | node :: rest => do
      let (printed, context) ← interpret context node
      let (others, context) ← interpretAll context rest
      return (printed ++ others, context)

end

end Node

end Interpreter

variable {catalog : Catalog} {context : Context}

/-! ## Trans tags -/

/-- Arguments without names are evaluated in order, up to the first that has no value. -/
theorem Expr.bindArguments_positional_eq (filter : Filter) (filters : List Filter) (context : Context)
    (exprs : List Expr) (values : List Value) :
    bindArguments filters context filter values.length values (exprs.map .positional) =
      (values ++ ·) <$> exprs.mapM (evaluate filters context) := by
  induction exprs generalizing values with
  | nil =>
      rw [List.mapM_nil, map_pure, List.append_nil]
      rfl
  | cons expr rest ih =>
      rw [List.map_cons, Argument.positional, bindArguments, List.mapM_cons]
      cases expr.evaluate filters context with
      | error error => rfl
      | ok value =>
          have hrest := ih (values ++ [value])
          rw [List.length_append, List.length_singleton, ← setPlace_length] at hrest
          have hplace : filter.placeOf values.length none = .ok values.length := rfl
          rw [hplace]
          simp only [ok_bind, Option.isNone_none, if_true, hrest]
          simp only [map_eq_pure_bind, bind_assoc, pure_bind, setPlace_length, List.append_assoc,
            List.singleton_append]

/-- The request of a subject with an object for its replacements. -/
theorem transRequest_object (subject : Value) (replacements : Assoc String Value)
    (others : List Value) :
    transRequest subject (.object replacements :: others) =
      (fun count => ⟨subject.display, replacements.map fun entry => (entry.1, entry.2.display),
        textOf (slot others 0), textOf (slot others 1), textOf (slot others 2), count⟩) <$>
          countOf (slot others 3) := rfl

namespace TransTag

theorem textOf_evaluate_domain (tag : TransTag) :
    textOf <$> (tag.domain.getD (.string defaultDomain)).evaluate [transFilter catalog] context =
      tag.domainValue catalog context := by
  unfold domainValue
  cases tag.domain <;> rfl

/-- The operands of the filter that a tag compiles to, in the order of their places. -/
def operandExprs (tag : TransTag) : List Expr :=
  [tag.replacements, tag.domain.getD (.string defaultDomain), .constant (optionalText tag.context)] ++
    match tag.plural, tag.count with
    | some plural, some count => [.string (Placeholder.unescape plural), count]
    | _, _ => []

theorem expression_eq_filter {tag : TransTag} (hregular : tag.Regular) :
    tag.expression = .filter (.string (Placeholder.unescape tag.body)) filterName
      (tag.operandExprs.map .positional) tag.line := by
  unfold expression operandExprs
  cases hcontext : tag.context with
  | none => cases tag.plural <;> cases tag.count <;> rfl
  | some text =>
      have htrim := hregular.trim_context text hcontext
      cases tag.plural <;> cases tag.count <;> simp [htrim, optionalText, Expr.string]

/-- The filter translates the text of a tag with the operands of the tag, once the count is one. -/
theorem apply_transFilter_operands (catalog : Catalog) (tag : TransTag)
    (replacements : Assoc String Value) (domain : Value) (others : List Value) :
    (transFilter catalog).apply (.string (Placeholder.unescape tag.body))
        (.object replacements :: domain :: optionalText tag.context :: others) =
      (fun count => .string (catalog.translate ⟨Placeholder.unescape tag.body,
        replacements.map fun entry => (entry.1, entry.2.display), textOf domain, tag.context,
        textOf (slot others 0), count⟩)) <$> countOf (slot others 1) := by
  rw [apply_transFilter, transRequest_object, Functor.map_map]
  show (fun count => Value.string (catalog.translate ⟨_, _, textOf domain,
    textOf (optionalText tag.context), textOf (slot others 0), count⟩)) <$>
      countOf (slot others 1) = _
  rw [textOf_optionalText]
  rfl

/-- The filter that a tag compiles to prints what the tag is interpreted to. -/
theorem evaluate_expression {tag : TransTag} (hregular : tag.Regular) (hkeys : tag.LiteralKeys) :
    tag.expression.evaluate [transFilter catalog] context =
      .string <$> tag.interpret catalog context := by
  have hbind := Expr.bindArguments_positional_eq (transFilter catalog) [transFilter catalog] context
    tag.operandExprs []
  rw [List.length_nil] at hbind
  have hcounted : tag.plural.isSome = tag.count.isSome := hregular.plural_isSome
  rw [expression_eq_filter hregular, Expr.evaluate, find?_transFilter]
  simp only [hbind, List.nil_append]
  unfold operandExprs interpret
  rw [← textOf_evaluate_domain]
  simp only [List.cons_append, List.nil_append, List.mapM_cons, evaluate_replacements_eq hkeys]
  cases tag.replacementValues catalog context with
  | error error => rfl
  | ok replacements =>
      cases (tag.domain.getD (.string defaultDomain)).evaluate [transFilter catalog] context with
      | error error => rfl
      | ok domain =>
          unfold countValue
          cases hplural : tag.plural with
          | none =>
              have hcount : tag.count = none := by simpa [hplural] using hcounted
              rw [hcount]
              exact apply_transFilter_operands catalog tag replacements domain []
          | some plural =>
              obtain ⟨expr, hcount⟩ : ∃ expr, tag.count = some expr := by
                simpa [hplural, Option.isSome_iff_exists] using hcounted
              rw [hcount]
              simp only [List.mapM_cons]
              cases expr.evaluate [transFilter catalog] context with
              | error error => rfl
              | ok value =>
                  have hcounts := apply_transFilter_operands catalog tag replacements domain
                    [.string (Placeholder.unescape plural), value]
                  refine Eq.trans hcounts ?_
                  simp only [ok_bind, map_ok]
                  show _ <$> countOf value = _
                  cases countOf value <;> rfl

theorem display_evaluate_expression {tag : TransTag} (hregular : tag.Regular) :
    Value.display <$> tag.expression.evaluate [transFilter catalog] context =
      tag.printed catalog context := by
  unfold printed
  split
  case isTrue hkeys =>
    rw [evaluate_expression hregular hkeys, Functor.map_map]
    exact id_map _
  case isFalse => rfl

end TransTag

/-! ## Programs -/

namespace Node

mutual

/-- The program of a node runs as the node is interpreted, and the rest of the program goes on with
the variables that the node leaves. -/
theorem run_program_append {node : Node} (hregular : node.Regular) (context : Context)
    (rest : List Instruction) :
    run [transFilter catalog] context (node.program ++ rest) = (do
      let (printed, context) ← node.interpret catalog context
      let others ← run [transFilter catalog] context rest
      return printed ++ others) := by
  cases node with
  | text data line => rfl
  | print expr line =>
      rw [program, List.singleton_append, run, interpret, bind_assoc]
      simp only [pure_bind]
  | set name value line =>
      rw [program, List.singleton_append, run, interpret, bind_assoc]
      simp only [pure_bind, String.empty_append, bind_pure]
  | body nodes line =>
      rw [program, interpret]
      apply run_programAll_append
      intro node hnode tag htag
      exact hregular tag (by rw [tags_body]; exact List.mem_flatMap.mpr ⟨node, hnode, htag⟩)
  | trans tag =>
      have htag : tag.Regular := hregular tag (by simp)
      rw [program, List.singleton_append, run, interpret, ← TransTag.display_evaluate_expression htag]
      simp only [map_eq_pure_bind, bind_assoc, pure_bind]
  | defaultDomain domain line =>
      rw [program, List.nil_append, interpret]
      simp only [ok_bind, String.empty_append, bind_pure]

theorem run_programAll_append {nodes : List Node} (hregular : ∀ node ∈ nodes, node.Regular)
    (context : Context) (rest : List Instruction) :
    run [transFilter catalog] context (programAll nodes ++ rest) = (do
      let (printed, context) ← interpretAll catalog context nodes
      let others ← run [transFilter catalog] context rest
      return printed ++ others) := by
  cases nodes with
  | nil =>
      rw [programAll, List.nil_append, interpretAll]
      simp only [ok_bind, String.empty_append, bind_pure]
  | cons node nodes =>
      obtain ⟨hnode, hregular⟩ := List.forall_mem_cons.mp hregular
      rw [programAll, List.append_assoc, run_program_append hnode, interpretAll, bind_assoc]
      apply bind_congr_of_ok
      rintro ⟨printed, next⟩ -
      simp only [run_programAll_append hregular, bind_assoc, pure_bind, String.append_assoc]

end

/-- A tree that a template is read to, with its default domains filled in or without them. -/
def Parsed (node : Node) : Prop :=
  (∃ (source : Source) (blocks : List BlockTag), source.read blocks = .ok node) ∨
    ∃ (session : Session) (source : Source), (session.parse source).1 = .ok node

theorem Parsed.regular {node : Node} (hparsed : node.Parsed) : node.Regular := by
  rcases hparsed with ⟨source, blocks, hread⟩ | ⟨session, source, hparse⟩
  · exact regular_read hread
  · exact Session.regular_parse hparse

end Node

/-! ## Counts -/

/-- The values that are taken for a count or for none: null, a number that is not below zero, and
the text of a number. -/
def CountsOrNull : Value → Prop
  | .null => True
  | .number (.integer value) => 0 ≤ value
  | .number (.float bits) => ¬(bits >>> 63 = 1 ∧ (Decimal.Binary.ofBits bits).significand ≠ 0)
  | .string text => (word? (Text.trim text).toList).isSome
  | _ => False

theorem isSome_count?_iff (number : Number) :
    number.count?.isSome ↔ CountsOrNull (.number number) := by
  cases number with
  | integer value => by_cases hsign : 0 ≤ value <;> simp [Number.count?, CountsOrNull, hsign]
  | float bits =>
      by_cases hsign : bits >>> 63 = 1 ∧ (Decimal.Binary.ofBits bits).significand ≠ 0 <;>
        simp [Number.count?, CountsOrNull, hsign]

/-- Every other value is refused. -/
theorem exists_countOf_iff (value : Value) :
    (∃ count, countOf value = .ok count) ↔ CountsOrNull value := by
  unfold countOf
  cases value with
  | number number =>
      rw [← isSome_count?_iff]
      cases hcount : number.count? <;> simp [hcount]
  | string text =>
      unfold CountsOrNull
      cases hword : word? (Text.trim text).toList <;> simp [hword]
  | _ => simp [CountsOrNull]

/-- Null alone is no count. -/
theorem countOf_eq_none_iff (value : Value) : countOf value = .ok none ↔ value = .null := by
  unfold countOf
  cases value with
  | number number => cases hcount : number.count? <;> simp [hcount]
  | string text => cases hword : word? (Text.trim text).toList <;> simp [hword]
  | _ => simp

/-! ## The two ways of rendering -/

/-- Compiling a tree and running its program is interpreting the tree.  The replacements of its tags
bind what their mappings give and what their placeholders stand for, and their counts are null, the
numbers that are not below zero, and texts of numbers. -/
theorem Node.run_program_eq_interpret {node : Node} (hparsed : node.Parsed) (catalog : Catalog)
    (context : Context) :
    run [transFilter catalog] context node.program = Prod.fst <$> node.interpret catalog context ∧
      ∀ tag ∈ node.tags, ∀ known : Context,
        (∀ replacements, tag.replacementValues catalog known = .ok replacements →
          ∃ given, tag.givenValues catalog known = .ok given ∧
            tag.Binds catalog known given replacements) ∧
        ∀ expr value, tag.count = some expr →
          expr.evaluate [transFilter catalog] known = .ok value →
            ((∃ count, tag.countValue catalog known = .ok count) ↔ CountsOrNull value) ∧
            (tag.countValue catalog known = .ok none ↔ value = .null) := by
  refine ⟨?_, ?_⟩
  · calc
      run [transFilter catalog] context node.program =
          run [transFilter catalog] context (node.program ++ []) := by rw [List.append_nil]
      _ = (do
          let (printed, context) ← node.interpret catalog context
          let others ← run [transFilter catalog] context []
          return printed ++ others) := run_program_append hparsed.regular context []
      _ = Prod.fst <$> node.interpret catalog context := by
          simp only [run, ok_bind, String.append_empty, map_eq_pure_bind]
  · intro tag _ known
    refine ⟨fun replacements hvalues => TransTag.binds_replacementValues hvalues, ?_⟩
    intro expr value hcount hvalue
    have hcounted : tag.countValue catalog known = countOf value := by
      unfold TransTag.countValue
      rw [hcount]
      simp only [hvalue, ok_bind]
    rw [hcounted]
    exact ⟨exists_countOf_iff value, countOf_eq_none_iff value⟩

/-- A tag with a mapping that gives one placeholder and leaves the count to the other. -/
theorem Node.run_program_eq_interpret_counted_tag :
    ∃ tag : TransTag, (Node.trans tag).Parsed ∧ tag.LiteralKeys ∧
      run [transFilter (.empty "en")] [("n", .number (.integer 1))] (Node.trans tag).program =
        Prod.fst <$> (Node.trans tag).interpret (.empty "en") [("n", .number (.integer 1))] := by
  have hread : (onlyTag? ((Session.start (.empty "en")).parse
      ⟨"\x7b% trans count n with \x7b'%a%': 'x'\x7d %\x7d%a% %count%|b\x7b% endtrans %\x7d", none⟩).1).any
        (fun tag => decide tag.LiteralKeys) = true := by
    decide +kernel
  obtain ⟨tag, hparse, htest⟩ := eq_ok_of_any_onlyTag hread
  have hparsed : (Node.trans tag).Parsed := .inr ⟨_, _, hparse⟩
  exact ⟨tag, hparsed, of_decide_eq_true htest, (run_program_eq_interpret hparsed _ _).1⟩

/-- The error of an outcome, if it is one. -/
def error? {α : Type} : Except RenderError α → Option RenderError
  | .ok _ => none
  | .error error => some error

/-- The first error among expressions, each evaluated on its own. -/
def firstError (catalog : Catalog) (context : Context) (exprs : List Expr) : Option RenderError :=
  exprs.findSome? fun expr => error? (expr.evaluate [transFilter catalog] context)

/-- Inside a tag the error that is met is not always the first one in document order: a mapping is
evaluated in front of the count that is written before it. -/
theorem Session.error_of_mapping_met_before_error_of_count :
    ∃ tag, ((start (.empty "en")).parse
        ⟨"\x7b% trans count n|foo with \x7b'%a%': n|bar\x7d %\x7d%a%|b\x7b% endtrans %\x7d", none⟩).1 =
          .ok (.trans tag) ∧
      tag.LiteralKeys ∧
      firstError (.empty "en") [] tag.expressions = some (.unknownFilter "foo") ∧
      error? (run [transFilter (.empty "en")] [] (Node.trans tag).program) =
        some (.unknownFilter "bar") := by
  have hread : (onlyTag? ((start (.empty "en")).parse
      ⟨"\x7b% trans count n|foo with \x7b'%a%': n|bar\x7d %\x7d%a%|b\x7b% endtrans %\x7d", none⟩).1).any
        (fun tag => decide tag.LiteralKeys &&
          firstError (.empty "en") [] tag.expressions == some (.unknownFilter "foo") &&
          error? (run [transFilter (.empty "en")] [] (Node.trans tag).program) ==
            some (.unknownFilter "bar")) = true := by
    decide +kernel
  obtain ⟨tag, hparse, htest⟩ := eq_ok_of_any_onlyTag hread
  simp only [Bool.and_eq_true, decide_eq_true_eq, beq_iff_eq] at htest
  exact ⟨tag, hparse, htest.1.1, htest.1.2, htest.2⟩

end TemplateMessages.Template

import TemplateMessages.Proofs.FilledDomains
import TemplateMessages.Proofs.Requests

/-!
# The domains that are put in

A `trans` filter without a domain gets one in one of three ways: by name when it
has arguments with names, otherwise in the second place, behind empty
replacements when it has no argument at all.  All three mean the same as a named
argument.  A part that has got its domain is not touched again, so a tree that
is filled in once more stays as it is.
-/

namespace TemplateMessages.Template

/-! ## The argument that is added -/

theorem findArgument_map (change : Expr → Expr) (arguments : List (Argument Expr)) (name : String) :
    findArgument (arguments.map fun argument => ⟨argument.name, change argument.value⟩) name =
      (findArgument arguments name).map change := by
  unfold findArgument
  rw [List.find?_map, List.filter_map]
  simp only [Function.comp_def, List.getElem?_map]
  cases arguments.find? fun argument => argument.name == some name with
  | some argument => rfl
  | none => cases transParameters.idxOf? name <;> simp [Function.comp_def]

theorem findArgument_domain (arguments : List (Argument Expr)) :
    findArgument arguments "domain" =
      ((arguments.find? fun argument => argument.name == some "domain").or
        (arguments.filter fun argument => argument.name.isNone)[1]?).map (·.value) := by
  have hplace : transParameters.idxOf? "domain" = some 1 := by decide
  unfold findArgument
  rw [hplace]
  cases arguments.find? fun argument => argument.name == some "domain" <;> rfl

/-- Whether an argument is found depends on the names alone. -/
theorem findArgument_eq_none_of_names {arguments others : List (Argument Expr)} {name : String}
    (hnames : arguments.map (·.name) = others.map (·.name))
    (hnone : findArgument arguments name = none) : findArgument others name = none := by
  have hblank : ∀ written : List (Argument Expr),
      findArgument ((written.map (·.name)).map fun label => ⟨label, .null⟩) name =
        (findArgument written name).map fun _ => .null := by
    intro written
    rw [List.map_map]
    exact findArgument_map (fun _ => .null) written name
  have hothers := hblank others
  rw [← hnames, hblank arguments, hnone] at hothers
  exact Option.map_eq_none_iff.mp hothers.symm

/-- Of arguments without a name and without a domain there is at most one. -/
theorem eq_singleton_of_findArgument_eq_none {arguments : List (Argument Expr)}
    (hnamed : ¬ arguments.any fun argument => argument.name.isSome) (hne : arguments ≠ [])
    (hlacks : findArgument arguments "domain" = none) :
    ∃ value, arguments = [.positional value] := by
  have hunnamed : ∀ argument ∈ arguments, argument.name = none := by
    intro argument hargument
    by_contra hname
    exact hnamed (List.any_eq_true.mpr ⟨argument, hargument, Option.isSome_iff_ne_none.mpr hname⟩)
  have hall : (arguments.filter fun argument => argument.name.isNone) = arguments := by
    rw [List.filter_eq_self]
    intro argument hargument
    simp [hunnamed argument hargument]
  rw [findArgument_domain, hall, Option.map_eq_none_iff, Option.or_eq_none_iff,
    List.getElem?_eq_none_iff] at hlacks
  obtain ⟨argument, rest, rfl⟩ := List.exists_cons_of_ne_nil hne
  obtain rfl : rest = [] := by simpa using hlacks.2
  refine ⟨argument.value, ?_⟩
  rw [Argument.positional, ← hunnamed argument List.mem_cons_self]

/-- What the addition of a domain does to arguments that lack one. -/
theorem addDomain_cases (domain : Expr) {arguments : List (Argument Expr)}
    (hlacks : findArgument arguments "domain" = none) :
    addDomain domain arguments = arguments ++ [.named "domain" domain] ∨
    (arguments = [] ∧ addDomain domain arguments = [.positional (.array []), .positional domain]) ∨
    (∃ value, arguments = [.positional value] ∧
      addDomain domain arguments = [.positional value, .positional domain]) := by
  by_cases hnamed : arguments.any fun argument => argument.name.isSome
  · exact .inl (by rw [addDomain, if_pos hnamed])
  · by_cases hempty : arguments = []
    · subst hempty
      exact .inr (.inl ⟨rfl, rfl⟩)
    · obtain ⟨value, rfl⟩ := eq_singleton_of_findArgument_eq_none hnamed hempty hlacks
      exact .inr (.inr ⟨value, rfl, rfl⟩)

/-- The domain that is added is the one that is found. -/
theorem findArgument_addDomain (domain : Expr) {arguments : List (Argument Expr)}
    (hlacks : findArgument arguments "domain" = none) :
    findArgument (addDomain domain arguments) "domain" = some domain := by
  rcases addDomain_cases domain hlacks with hadd | ⟨-, hadd⟩ | ⟨value, -, hadd⟩
  · rw [findArgument_domain, Option.map_eq_none_iff, Option.or_eq_none_iff] at hlacks
    rw [hadd, findArgument_domain, List.find?_append, hlacks.1]
    rfl
  · rw [hadd, findArgument_domain]
    rfl
  · rw [hadd, findArgument_domain]
    rfl

/-- A named domain goes where the second argument without a name goes. -/
theorem bindArguments_domain (catalog : Gettext.Catalog) (context : Context) (domain : Expr)
    (values : List Value) :
    Expr.bindArguments [transFilter catalog] context (transFilter catalog) 0 values
        [.named "domain" domain] =
      (fun value => setPlace value 1 values) <$> domain.evaluate [transFilter catalog] context := by
  have hplace : (transFilter catalog).placeOf 0 (some "domain") = .ok 1 := rfl
  simp only [Expr.bindArguments, Argument.named, hplace]
  cases domain.evaluate [transFilter catalog] context <;> rfl

/-- The domain in the place where it is added means what a named argument means, whatever the
translations and the variables are. -/
def Expr.MeansNamed (domain subject : Expr) (arguments : List (Argument Expr)) (line : Nat) : Prop :=
  ∀ (catalog : Gettext.Catalog) (context : Context),
    (filter subject TransTag.filterName (addDomain domain arguments) line).evaluate
        [transFilter catalog] context =
      (filter subject TransTag.filterName (arguments ++ [.named "domain" domain]) line).evaluate
        [transFilter catalog] context

/-- A domain means what a named argument means, whichever way it is added. -/
theorem Expr.meansNamed {arguments : List (Argument Expr)}
    (hlacks : findArgument arguments "domain" = none) (domain subject : Expr) (line : Nat) :
    MeansNamed domain subject arguments line := by
  intro catalog context
  rcases addDomain_cases domain hlacks with hadd | ⟨rfl, hadd⟩ | ⟨value, rfl, hadd⟩
  · rw [hadd]
  · rw [hadd, evaluate, evaluate, find?_transFilter, List.nil_append]
    simp only [bindArguments_domain]
    cases subject.evaluate [transFilter catalog] context with
    | error error => rfl
    | ok value =>
        -- Empty replacements stand in front of the domain, and they are as good as none.
        cases hdomain : domain.evaluate [transFilter catalog] context <;>
          simp only [bindArguments, Argument.positional, evaluate, evaluateItems, hdomain] <;> rfl
  · rw [hadd, evaluate, evaluate, find?_transFilter, List.singleton_append]
    cases hvalue : value.evaluate [transFilter catalog] context <;>
      simp only [bindArguments, Argument.positional, Argument.named, hvalue] <;> rfl

/-! ## The second time -/

namespace Expr

theorem lacksDomain_fillDomain (domain expr : Expr) : (fillDomain domain expr).lacksDomain = false := by
  cases expr with
  | filter subject word arguments line =>
      have hfilled : (findArgument (fillArguments domain arguments) "domain").isNone =
          (findArgument arguments "domain").isNone := by
        rw [fillArguments_eq, findArgument_map, Option.isNone_map]
      rw [fillDomain]
      split
      case isTrue hlacks =>
        have hnone : findArgument (fillArguments domain arguments) "domain" = none := by
          rw [← Option.isNone_iff_eq_none, hfilled]
          exact hlacks.2
        rw [lacksDomain, findArgument_addDomain domain hnone]
        exact Bool.and_false _
      case isFalse hgiven =>
        rw [lacksDomain, hfilled]
        simpa only [Bool.and_eq_false_iff, beq_eq_false_iff_ne, not_and_or, Bool.not_eq_true]
          using hgiven
  | _ => rfl

/-- Once a domain is filled in, every `trans` filter has one. -/
theorem namesDomains_inScope {scope : DomainScope} (hscope : scope.NamesDomains) {domain : Expr}
    (hdomain : scope.domain = some domain) (expr : Expr) : (expr.inScope scope).NamesDomains := by
  induction expr using induction_on_parts with
  | hstep expr ih =>
      obtain ⟨added, -, hparts, hadded⟩ := exists_parts_inScope_eq hscope expr
      rw [namesDomains_iff, hparts]
      refine ⟨?_, ?_⟩
      · rw [inScope, hdomain]
        exact lacksDomain_fillDomain domain expr
      · intro part hpart
        rcases List.mem_append.mp hpart with hpart | hpart
        · obtain ⟨inner, hinner, rfl⟩ := List.mem_map.mp hpart
          exact ih inner hinner
        · exact namesDomains_of_added hscope (hadded part hpart)

theorem inScope_inScope {scope : DomainScope} (hscope : scope.NamesDomains) (expr : Expr) :
    (expr.inScope scope).inScope scope = expr.inScope scope := by
  cases hdomain : scope.domain with
  | none =>
      have hsame : ∀ expr : Expr, expr.inScope scope = expr := by
        intro expr
        rw [inScope, hdomain]
      rw [hsame, hsame]
  | some domain => exact inScope_of_namesDomains scope (namesDomains_inScope hscope hdomain expr)

end Expr

theorem TransTag.inScope_inScope {scope : DomainScope} (hscope : scope.NamesDomains)
    (tag : TransTag) : (tag.inScope scope).inScope scope = tag.inScope scope := by
  have hexprs : ∀ expr : Option Expr, (expr.map (Expr.inScope scope)).map (Expr.inScope scope) =
      expr.map (Expr.inScope scope) := by
    intro expr
    cases expr with
    | none => rfl
    | some expr => exact congrArg some (Expr.inScope_inScope hscope expr)
  have hdomain : ((tag.inScope scope).inScope scope).domain = (tag.inScope scope).domain := by
    rw [Node.domain_inScope hscope (tag.inScope scope), entered]
    cases hknown : (tag.inScope scope).domain with
    | some domain =>
        rw [Node.domain_inScope hscope] at hknown
        obtain ⟨written, -, rfl⟩ := Option.map_eq_some_iff.mp hknown
        exact congrArg some (Expr.inScope_inScope hscope written)
    | none =>
        have hnone : scope.domain = none := by
          rw [Node.domain_inScope hscope, Option.map_eq_none_iff] at hknown
          exact (Option.or_eq_none_iff.mp hknown).2
        simp [hnone]
  obtain ⟨body, plural, domain, count, vars, notes, context, line⟩ := tag
  simp only [inScope, hexprs, TransTag.mk.injEq, true_and, and_true] at hdomain ⊢
  exact hdomain

namespace Node

mutual

/-- A tree that has been filled in stays as it is. -/
theorem fillDomains_fillDomains {scope : DomainScope} (hscope : scope.NamesDomains) {node : Node}
    (hnode : node.NamesDomains) :
    (node.fillDomains scope).1.fillDomains scope = node.fillDomains scope := by
  have hinner := hscope.enter hnode
  cases node with
  | text data line => rfl
  | print expr line =>
      have hexpr := Expr.inScope_inScope hinner expr
      simp only [fillDomains]
      exact congrArg (fun expr => (Node.print expr line, _)) hexpr
  | set name value line =>
      have hvalue := Expr.inScope_inScope hinner value
      simp only [fillDomains]
      exact congrArg (fun value => (Node.set name value line, _)) hvalue
  | body nodes line =>
      have hnodes := fillAll_fillAll hinner fun node hmem => hnode.of_mem hmem
      simp only [fillDomains]
      exact congrArg (fun nodes => (Node.body nodes.1 line, nodes.2.leave)) hnodes
  | trans tag =>
      have htag := tag.inScope_inScope hinner
      simp only [fillDomains]
      exact congrArg (fun tag => (Node.trans tag, _)) htag
  | defaultDomain domain line =>
      have hnames := hnode domain (domain_mem_defaultDomains domain line)
      have hsame := Expr.inScope_of_namesDomains (scope.enter (.defaultDomain domain line)) hnames
      simp only [fillDomains, hsame]

theorem fillAll_fillAll {scope : DomainScope} (hscope : scope.NamesDomains) {nodes : List Node}
    (hnodes : ∀ node ∈ nodes, node.NamesDomains) :
    fillAll scope (fillAll scope nodes).1 = fillAll scope nodes := by
  cases nodes with
  | nil => rfl
  | cons node rest =>
      obtain ⟨hnode, hrest⟩ := List.forall_mem_cons.mp hnodes
      have hfirst := fillDomains_fillDomains hscope hnode
      have hothers := fillAll_fillAll (namesDomains_fillDomains hscope hnode) hrest
      simp only [fillAll, hfirst, hothers]

end

end Node

/-! ## What the parts without a domain get -/

namespace Part

/-- What is added to the arguments depends on their names alone. -/
theorem exists_addDomain_append (domain : Expr) {arguments others : List (Argument Expr)}
    (hnames : arguments.map (·.name) = others.map (·.name)) :
    ∃ added, addDomain domain arguments = arguments ++ added ∧
      addDomain domain others = others ++ added := by
  have hnamed : (arguments.any fun argument => argument.name.isSome) =
      others.any fun argument => argument.name.isSome := by
    simpa only [List.any_map, Function.comp_def] using
      congrArg (fun names : List (Option String) => names.any Option.isSome) hnames
  have hempty : arguments.isEmpty = others.isEmpty := by
    simpa only [List.isEmpty_map] using congrArg List.isEmpty hnames
  unfold addDomain
  rw [hnamed, hempty]
  split
  case isTrue => exact ⟨_, rfl, rfl⟩
  case isFalse =>
    split
    case isTrue hnil =>
      obtain rfl := List.isEmpty_iff.mp hnil
      obtain rfl := List.isEmpty_iff.mp (hempty.trans hnil)
      exact ⟨_, rfl, rfl⟩
    case isFalse => exact ⟨_, rfl, rfl⟩

/-- Arguments are told by their names and their values. -/
theorem arguments_ext {arguments others : List (Argument Expr)}
    (hnames : arguments.map (·.name) = others.map (·.name))
    (hvalues : arguments.map (·.value) = others.map (·.value)) : arguments = others := by
  induction arguments generalizing others with
  | nil => exact (List.map_eq_nil_iff.mp hnames.symm).symm
  | cons argument rest ih =>
      cases others with
      | nil => cases hnames
      | cons other others =>
          obtain ⟨name, value⟩ := argument
          obtain ⟨otherName, otherValue⟩ := other
          simp only [List.map_cons, List.cons.injEq] at hnames hvalues
          obtain ⟨rfl, hnames⟩ := hnames
          obtain ⟨rfl, hvalues⟩ := hvalues
          rw [ih hnames hvalues]

/-- A filter without a domain gets the one in force behind the arguments that it has. -/
theorem Becomes.filter {domain subject : Expr} {arguments : List (Argument Expr)} {line : Nat}
    {left : Part}
    (hbecomes : (ofExpr (.filter subject TransTag.filterName arguments line)).Becomes (some domain) left)
    (hlacks : findArgument arguments "domain" = none) :
    ∃ value values, left = .ofExpr (.filter value TransTag.filterName (addDomain domain values) line) ∧
      values.map (·.name) = arguments.map (·.name) ∧ findArgument values "domain" = none := by
  obtain ⟨hshell, hadded⟩ := hbecomes
  have hentered : (ofExpr (.filter subject TransTag.filterName arguments line)).entered (some domain) =
      .ofExpr (.filter subject TransTag.filterName (addDomain domain arguments) line) := by
    simp [entered, Expr.entered, hlacks]
  rw [hentered] at hshell hadded
  -- Only a filter has the shell of one.
  obtain ⟨value, word, values, line', rfl⟩ : ∃ value word values line',
      left = .ofExpr (.filter value word values line') := by
    cases left with
    | ofNode node => cases hshell
    | ofExpr expr =>
        cases expr with
        | filter value word values line' => exact ⟨value, word, values, line', rfl⟩
        | _ => cases hshell
  simp only [Part.shell, Expr.mapParts, ofExpr.injEq, Expr.filter.injEq, true_and] at hshell
  obtain ⟨rfl, hshell, rfl⟩ := hshell
  obtain ⟨added, hadd, -⟩ := exists_addDomain_append domain (rfl : arguments.map (·.name) = _)
  have hnames : values.map (·.name) = arguments.map (·.name) ++ added.map (·.name) := by
    simpa only [hadd, List.map_map, List.map_append, Function.comp_def] using
      congrArg (List.map (·.name)) hshell
  simp only [hadd, parts, Expr.parts, List.length_map, List.length_cons, ← List.map_drop,
    List.drop_succ_cons, List.drop_left] at hadded
  have hkept : (values.take arguments.length).map (·.name) = arguments.map (·.name) := by
    rw [List.map_take, hnames, ← List.length_map (·.name), List.take_left]
  have hrest : values.drop arguments.length = added := by
    apply arguments_ext
    · rw [List.map_drop, hnames, ← List.length_map (·.name), List.drop_left]
    · exact List.map_injective_iff.mpr (fun _ _ => ofExpr.inj) hadded
  have hvalues : values = addDomain domain (values.take arguments.length) := by
    obtain ⟨others, hothers, hadds⟩ := exists_addDomain_append domain hkept.symm
    rw [hadd] at hothers
    rw [hadds, ← List.append_cancel_left hothers, ← hrest, List.take_append_drop]
  exact ⟨value, values.take arguments.length, by rw [← hvalues], hkept,
    findArgument_eq_none_of_names hkept.symm hlacks⟩

/-- A tag without a domain gets the one in force. -/
theorem Becomes.trans {domain : Option Expr} {tag : TransTag} {left : Part}
    (hbecomes : (ofNode (.trans tag)).Becomes domain left) (hlacks : tag.domain = none) :
    ∃ filled : TransTag, left = .ofNode (.trans filled) ∧ filled.domain = domain := by
  obtain ⟨hshell, hadded⟩ := hbecomes
  match left with
  | .ofNode (.trans filled) =>
      refine ⟨filled, rfl, ?_⟩
      simp only [entered, Node.entered, TransTag.entered, Part.shell, Node.shell, ofNode.injEq,
        Node.trans.injEq, TransTag.mk.injEq] at hshell
      obtain ⟨-, -, -, hcount, hvars, -⟩ := hshell
      simp only [parts, Node.expressions, TransTag.expressions, entered, Node.entered,
        TransTag.entered, hlacks, Option.none_or] at hadded
      have hlength : (filled.count.toList ++ filled.vars.toList).length =
          (tag.count.toList ++ tag.vars.toList).length := by
        have hcounts := congrArg (fun expr : Option Expr => expr.toList.length) hcount
        have hmappings := congrArg (fun expr : Option Expr => expr.toList.length) hvars
        simp only [Option.toList_map, List.length_map] at hcounts hmappings
        rw [List.length_append, List.length_append, hcounts, hmappings]
      simp only [Option.toList_none, List.append_nil, List.length_map, ← List.map_drop] at hadded
      have hdomains := List.map_injective_iff.mpr (fun _ _ => ofExpr.inj) hadded
      rw [List.drop_left, ← hlength, List.drop_left] at hdomains
      simpa only [Option.head?_toList] using congrArg List.head? hdomains

end Part

/-! ## Traversals -/

namespace Node

/-- The default domain in force at a position of an outermost tree. -/
def domainAt (node : Node) (position : Position) : Option Expr :=
  latestDomain none ((Part.ofNode node).upTo position)

/-- A traversal of a tree from a scope comes to an end, and what it leaves is the tree with the
default domains of the latest tags filled in and nothing else changed. -/
structure FillsDomains (node : Node) (scope : DomainScope) (filled : Node × DomainScope) : Prop where
  /-- The traversal ends, with a bound on its depth that suffices. -/
  ends : ∀ bound, sizeOf filled.1 ≤ bound → node.visit bound scope = some filled
  /-- Every part stands where it stood, changed by the domain in force there alone. -/
  becomes : ∀ position found, (Part.ofNode node).at? position = some found →
    ∃ left, (Part.ofNode filled.1).at? position = some left ∧
      found.Becomes (node.domainAt position) left
  /-- A tag without a domain has the one in force. -/
  tag : ∀ position tag, (Part.ofNode node).at? position = some (.ofNode (.trans tag)) →
    tag.domain = none →
      ∃ filledTag, (Part.ofNode filled.1).at? position = some (.ofNode (.trans filledTag)) ∧
        filledTag.domain = node.domainAt position
  /-- A filter without a domain has the one in force, and it means a named argument. -/
  filter : ∀ position subject arguments line domain,
    (Part.ofNode node).at? position =
      some (.ofExpr (.filter subject TransTag.filterName arguments line)) →
    findArgument arguments "domain" = none → node.domainAt position = some domain →
      Expr.MeansNamed domain subject arguments line ∧
      ∃ value values,
        (Part.ofNode filled.1).at? position =
          some (.ofExpr (.filter value TransTag.filterName (addDomain domain values) line)) ∧
        values.map (·.name) = arguments.map (·.name) ∧
        findArgument (addDomain domain values) "domain" = some domain ∧
        Expr.MeansNamed domain value values line
  /-- A second traversal changes nothing. -/
  again : ∀ outer : DomainScope, outer.depth = 0 → ∀ bound, sizeOf filled.1 ≤ bound →
    filled.1.visit bound outer = some filled

theorem namesDomains_body_of_forall {nodes : List Node} {line : Nat}
    (hnodes : ∀ node ∈ nodes, node.NamesDomains) : (body nodes line).NamesDomains := by
  intro domain hdomain
  rw [defaultDomains_body] at hdomain
  obtain ⟨node, hnode, hdomain⟩ := List.mem_flatMap.mp hdomain
  exact hnodes node hnode domain hdomain

/-- Of the nodes that hold no nodes only a default domain sets one. -/
theorem namesDomains_of_leaf {node : Node} (hself : (Part.ofNode node).defaultDomain? = none)
    (hbody : ∀ nodes line, node ≠ body nodes line) : node.NamesDomains := by
  intro domain hdomain
  obtain ⟨part, hpart, hfound⟩ := List.mem_filterMap.mp hdomain
  have hparts : (Part.ofNode node).parts = node.expressions.map .ofExpr := by
    cases node with
    | body nodes line => exact absurd rfl (hbody nodes line)
    | _ => rfl
  rw [Part.walk_eq, hparts] at hpart
  rcases List.mem_cons.mp hpart with rfl | hpart
  · rw [hself] at hfound
    cases hfound
  · obtain ⟨outer, houter, hpart⟩ := List.mem_flatMap.mp hpart
    obtain ⟨expr, -, rfl⟩ := List.mem_map.mp houter
    rw [defaultDomain?_of_mem_walk hpart] at hfound
    cases hfound

mutual

/-- The default domains are not changed themselves. -/
theorem NamesDomains.fillDomains {scope : DomainScope} (hscope : scope.NamesDomains) {node : Node}
    (hnode : node.NamesDomains) : (node.fillDomains scope).1.NamesDomains := by
  have hinner := hscope.enter hnode
  cases node with
  | body nodes line =>
      have hnodes := NamesDomains.fillAll hinner fun node hmem => hnode.of_mem hmem
      exact namesDomains_body_of_forall hnodes
  | defaultDomain domain line =>
      have hnames := hnode domain (domain_mem_defaultDomains domain line)
      rw [Node.fillDomains]
      rwa [Expr.inScope_of_namesDomains _ hnames]
  | _ => exact namesDomains_of_leaf rfl fun _ _ => Node.noConfusion

theorem NamesDomains.fillAll {scope : DomainScope} (hscope : scope.NamesDomains) {nodes : List Node}
    (hnodes : ∀ node ∈ nodes, node.NamesDomains) :
    ∀ node ∈ (Node.fillAll scope nodes).1, node.NamesDomains := by
  cases nodes with
  | nil => simp [Node.fillAll]
  | cons node rest =>
      obtain ⟨hnode, hrest⟩ := List.forall_mem_cons.mp hnodes
      exact List.forall_mem_cons.mpr ⟨NamesDomains.fillDomains hscope hnode,
        NamesDomains.fillAll (namesDomains_fillDomains hscope hnode) hrest⟩

end

/-- A traversal of an outermost tree does not depend on what an earlier one has left. -/
theorem visit_of_depth_eq_zero {scope : DomainScope} (hdepth : scope.depth = 0) (bound : Nat)
    (node : Node) : node.visit bound scope = node.visit bound .outermost := by
  cases bound with
  | zero => rfl
  | succ bound => cases node <;> simp only [visit, DomainScope.enter_of_depth_eq_zero hdepth]

theorem namesDomains_outermost : DomainScope.outermost.NamesDomains := by
  intro domain hdomain
  cases hdomain

/-- The walk over an outermost tree comes to its end, from whatever scope. -/
theorem visit_eq_some_of_depth_eq_zero {node : Node} (hnames : node.NamesDomains) {scope : DomainScope}
    (hdepth : scope.depth = 0) {bound : Nat} (hbound : sizeOf (node.fillDomains scope).1 ≤ bound) :
    node.visit bound scope = some (node.fillDomains scope) := by
  rw [fillDomains_of_depth_eq_zero hdepth] at hbound ⊢
  rw [visit_of_depth_eq_zero hdepth]
  exact visit_eq_some namesDomains_outermost hnames hbound

/-- Filling in default domains is scoped, complete and idempotent. -/
theorem fillsDomains {node : Node} (hnames : node.NamesDomains) {scope : DomainScope}
    (hdepth : scope.depth = 0) : node.FillsDomains scope (node.fillDomains scope) := by
  rw [fillDomains_of_depth_eq_zero hdepth]
  have hends : ∀ outer : DomainScope, outer.depth = 0 → ∀ bound,
      sizeOf (node.fillDomains .outermost).1 ≤ bound →
        node.visit bound outer = some (node.fillDomains .outermost) := by
    intro outer houter bound hbound
    rw [← fillDomains_of_depth_eq_zero houter] at hbound ⊢
    exact visit_eq_some_of_depth_eq_zero hnames houter hbound
  have hbecomes : ∀ position found, (Part.ofNode node).at? position = some found →
      ∃ left, (Part.ofNode (node.fillDomains .outermost).1).at? position = some left ∧
        found.Becomes (node.domainAt position) left := by
    intro position found hat
    exact exists_at?_fillDomains namesDomains_outermost hnames hat
  refine ⟨hends scope hdepth, hbecomes, ?_, ?_, ?_⟩
  · intro position tag hat hlacks
    obtain ⟨left, hleft, hbecomes⟩ := hbecomes position _ hat
    obtain ⟨filled, rfl, hdomain⟩ := hbecomes.trans hlacks
    exact ⟨filled, hleft, hdomain⟩
  · intro position subject arguments line domain hat hlacks hdomain
    obtain ⟨left, hleft, hbecomes⟩ := hbecomes position _ hat
    rw [hdomain] at hbecomes
    obtain ⟨value, values, rfl, hlabels, hnone⟩ := hbecomes.filter hlacks
    exact ⟨Expr.meansNamed hlacks domain subject line, value, values, hleft, hlabels,
      findArgument_addDomain domain hnone, Expr.meansNamed hnone domain value line⟩
  · intro outer houter bound hbound
    have hagain := fillDomains_fillDomains namesDomains_outermost hnames
    have hfilled := NamesDomains.fillDomains namesDomains_outermost hnames
    have hsize : sizeOf ((node.fillDomains .outermost).1.fillDomains .outermost).1 ≤ bound := by
      rwa [hagain]
    have hvisit := visit_eq_some namesDomains_outermost hfilled hsize
    rw [visit_of_depth_eq_zero houter, hvisit, hagain]

/-- A message in front of a default domain, and behind it one filter in the replacements of another
and a tag. -/
def messagesOfAdmin : Node :=
  .body
    [.print (.filter (.string "a") TransTag.filterName [] 1) 1,
      .defaultDomain (.string "admin") 2,
      .print (.filter (.string "b") TransTag.filterName
        [.positional (.map [(.string "%c%", .filter (.string "c") TransTag.filterName [] 3)])] 3) 3,
      .trans ⟨"d", none, none, none, none, none, none, 4⟩] 1

theorem fillsDomains_messagesOfAdmin :
    messagesOfAdmin.NamesDomains ∧ DomainScope.outermost.depth = 0 ∧
      messagesOfAdmin.domainAt [0, 0] = none ∧
      messagesOfAdmin.domainAt [2, 0, 1, 1] = some (.string "admin") ∧
      messagesOfAdmin.domainAt [3] = some (.string "admin") ∧
      messagesOfAdmin.FillsDomains .outermost (messagesOfAdmin.fillDomains .outermost) := by
  have hnames : messagesOfAdmin.NamesDomains := by decide
  exact ⟨hnames, rfl, rfl, rfl, rfl, fillsDomains hnames rfl⟩

end Node

end TemplateMessages.Template

import TemplateMessages.Proofs.DomainVisits
import TemplateMessages.Proofs.SessionHistory

/-!
# Trees with their default domains filled in

A default domain holds from its tag on.  The domain in force at a position is that
of the last tag among the parts that a walk meets up to the position, and what the
walk makes of a part depends on that domain alone: a trans tag or a `trans`
filter without a domain gets it, and nothing else is changed.
-/

namespace TemplateMessages.Template

/-! ## The domain in force -/

/-- The domain in force behind parts that a walk has met, from the one in force in front of them. -/
def latestDomain (start : Option Expr) (met : List Part) : Option Expr :=
  met.foldl (fun domain part => part.defaultDomain?.or domain) start

theorem latestDomain_append (start : Option Expr) (first second : List Part) :
    latestDomain start (first ++ second) = latestDomain (latestDomain start first) second :=
  List.foldl_append

theorem latestDomain_cons (start : Option Expr) (part : Part) (rest : List Part) :
    latestDomain start (part :: rest) = latestDomain (part.defaultDomain?.or start) rest := rfl

theorem latestDomain_of_none {start : Option Expr} {met : List Part}
    (hmet : ∀ part ∈ met, part.defaultDomain? = none) : latestDomain start met = start := by
  induction met with
  | nil => rfl
  | cons part rest ih =>
      obtain ⟨hpart, hrest⟩ := List.forall_mem_cons.mp hmet
      rw [latestDomain_cons, hpart, Option.none_or, ih hrest]

/-- Expressions set no default domain. -/
theorem defaultDomain?_of_mem_walk {expr : Expr} {part : Part}
    (hpart : part ∈ (Part.ofExpr expr).walk) : part.defaultDomain? = none := by
  obtain ⟨inner, -, rfl⟩ := List.mem_map.mp hpart
  rfl

theorem latestDomain_walk_exprs (start : Option Expr) (exprs : List Expr) :
    latestDomain start ((exprs.map Part.ofExpr).flatMap Part.walk) = start := by
  apply latestDomain_of_none
  intro part hpart
  obtain ⟨outer, houter, hpart⟩ := List.mem_flatMap.mp hpart
  obtain ⟨expr, -, rfl⟩ := List.mem_map.mp houter
  exact defaultDomain?_of_mem_walk hpart

namespace Part

/-- The parts that a walk meets up to a position, the part that stands there included. -/
def upTo : Part → Position → List Part
  | part, [] => [part]
  | part, step :: position =>
      part :: ((part.parts.take step).flatMap walk ++
        match part.parts[step]? with
        | some inner => inner.upTo position
        | none => [])

/-- The walk meets these parts first, and the last of them is the part at the position. -/
theorem walk_eq_upTo_append {part found : Part} {position : Position} (hat : part.at? position = some found) :
    (part.upTo position).getLast? = some found ∧ part.upTo position <+: part.walk := by
  induction position generalizing part with
  | nil =>
      obtain rfl : part = found := Option.some.inj hat
      rw [walk_eq]
      exact ⟨rfl, _, rfl⟩
  | cons step position ih =>
      obtain ⟨inner, hinner, hat⟩ := at?_cons_eq_some.mp hat
      obtain ⟨hlast, rest, hrest⟩ := ih hat
      obtain ⟨hstep, hget⟩ := List.getElem?_eq_some_iff.mp hinner
      have hparts : part.parts = part.parts.take step ++ inner :: part.parts.drop (step + 1) := by
        rw [← hget, List.getElem_cons_drop, List.take_append_drop]
      have hmet : part.upTo (step :: position) =
          part :: ((part.parts.take step).flatMap walk ++ inner.upTo position) := by
        rw [upTo, hinner]
      refine ⟨?_, rest ++ (part.parts.drop (step + 1)).flatMap walk, ?_⟩
      · rw [hmet, List.getLast?_cons, List.getLast?_append, hlast]
        rfl
      · rw [walk_eq, hmet]
        conv => rhs; rw [hparts]
        rw [List.flatMap_append, List.flatMap_cons, ← hrest]
        simp only [List.cons_append, List.append_assoc]

theorem latestDomain_upTo_ofExpr (start : Option Expr) {expr : Expr} {found : Part}
    {position : Position} (hat : (ofExpr expr).at? position = some found) :
    latestDomain start ((ofExpr expr).upTo position) = start := by
  apply latestDomain_of_none
  intro part hpart
  exact defaultDomain?_of_mem_walk ((walk_eq_upTo_append hat).2.subset hpart)

end Part

/-! ## What becomes of a part -/

/-- The node once it is entered. -/
def Node.entered (domain : Option Expr) : Node → Node
  | .trans tag => .trans (tag.entered domain)
  | node => node

/-- A node without what is in it: only the count of its parts is left of them. -/
def Node.shell : Node → Node
  | .text data line => .text data line
  | .print _ line => .print .null line
  | .set name _ line => .set name .null line
  | .body nodes line => .body (nodes.map fun _ => .text "" 0) line
  | .trans tag =>
      .trans ⟨tag.body, tag.plural, tag.domain.map fun _ => .null, tag.count.map fun _ => .null,
        tag.vars.map fun _ => .null, tag.notes, tag.context, tag.line⟩
  | .defaultDomain _ line => .defaultDomain .null line

namespace Part

/-- The part once it is entered. -/
def entered (domain : Option Expr) : Part → Part
  | .ofNode node => .ofNode (node.entered domain)
  | .ofExpr expr => .ofExpr (expr.entered domain)

def shell : Part → Part
  | .ofNode node => .ofNode node.shell
  | .ofExpr expr => .ofExpr (expr.mapParts fun _ => .null)

/-- What becomes of a part while a domain is in force.  It is entered and otherwise stays as it is;
what it gets stands behind the parts that it has. -/
structure Becomes (domain : Option Expr) (part left : Part) : Prop where
  shell : left.shell = (part.entered domain).shell
  added : left.parts.drop part.parts.length = (part.entered domain).parts.drop part.parts.length

end Part

namespace Expr

theorem mapParts_mapParts (first second : Expr → Expr) (expr : Expr) :
    (expr.mapParts first).mapParts second = expr.mapParts (second ∘ first) := by
  cases expr <;> simp [mapParts, Function.comp_def]

/-- What is added to arguments is the domain, and empty replacements in front of it. -/
theorem exists_addDomain_eq (domain : Expr) (arguments : List (Argument Expr)) :
    ∃ added : List (Argument Expr), addDomain domain arguments = arguments ++ added ∧
      ∀ argument ∈ added, argument.value = .array [] ∨ argument.value = domain := by
  unfold addDomain
  split
  case isTrue => exact ⟨_, rfl, by simp [Argument.named]⟩
  case isFalse =>
    split
    case isTrue hempty =>
      obtain rfl := List.isEmpty_iff.mp hempty
      exact ⟨_, (List.nil_append _).symm, by simp [Argument.positional]⟩
    case isFalse => exact ⟨_, rfl, by simp [Argument.positional]⟩

theorem exists_parts_entered_eq (domain : Option Expr) (expr : Expr) :
    ∃ added : List Expr, (expr.entered domain).parts = expr.parts ++ added ∧
      ∀ part ∈ added, part = .array [] ∨ domain = some part := by
  cases expr with
  | filter subject word arguments line =>
      have hsame : ∃ added : List Expr, arguments.map (·.value) =
          arguments.map (·.value) ++ added ∧ ∀ part ∈ added, part = .array [] ∨ domain = some part :=
        ⟨[], by simp, by simp⟩
      simp only [entered, parts, List.cons_append, List.cons.injEq, true_and]
      split
      case h_1 found =>
        split
        case isTrue =>
          obtain ⟨added, hadded, hvalues⟩ := exists_addDomain_eq found arguments
          refine ⟨added.map (·.value), by rw [hadded, List.map_append], ?_⟩
          intro part hpart
          obtain ⟨argument, hargument, rfl⟩ := List.mem_map.mp hpart
          exact (hvalues argument hargument).imp_right fun hvalue => congrArg some hvalue.symm
        case isFalse => exact hsame
      case h_2 => exact hsame
  | _ => exact ⟨[], by simp [entered], by simp⟩

theorem inScope_of_namesDomains (scope : DomainScope) {expr : Expr} (hnames : expr.NamesDomains) :
    expr.inScope scope = expr := by
  rw [inScope]
  split
  case h_1 domain _ => exact fillDomain_of_namesDomains domain hnames
  case h_2 => rfl

/-- What is put into an expression names its domains. -/
theorem namesDomains_of_added {scope : DomainScope} (hscope : scope.NamesDomains) {part : Expr}
    (hpart : part = .array [] ∨ scope.domain = some part) : part.NamesDomains := by
  rcases hpart with rfl | hpart
  · decide
  · exact hscope part hpart

/-- The parts of a filled expression are its own, filled in, and behind them those it has got. -/
theorem exists_parts_inScope_eq {scope : DomainScope} (hscope : scope.NamesDomains) (expr : Expr) :
    ∃ added : List Expr, (expr.entered scope.domain).parts = expr.parts ++ added ∧
      (expr.inScope scope).parts = expr.parts.map (inScope scope) ++ added ∧
      ∀ part ∈ added, part = .array [] ∨ scope.domain = some part := by
  obtain ⟨added, hentered, hadded⟩ := exists_parts_entered_eq scope.domain expr
  refine ⟨added, hentered, ?_, hadded⟩
  have hsame : added.map (inScope scope) = added := by
    calc
      added.map (inScope scope) = added.map id := by
        refine List.map_congr_left fun part hpart => ?_
        exact inScope_of_namesDomains scope (namesDomains_of_added hscope (hadded part hpart))
      _ = added := List.map_id added
  rw [inScope_eq_mapParts hscope, parts_mapParts, hentered, List.map_append, hsame]

theorem becomes_inScope {scope : DomainScope} (hscope : scope.NamesDomains) (expr : Expr) :
    (Part.ofExpr expr).Becomes scope.domain (.ofExpr (expr.inScope scope)) := by
  obtain ⟨added, hentered, hparts, -⟩ := exists_parts_inScope_eq hscope expr
  refine ⟨?_, ?_⟩
  · rw [Part.entered, Part.shell, Part.shell, inScope_eq_mapParts hscope, mapParts_mapParts]
    rfl
  · simp [Part.parts, Part.entered, hentered, hparts]

/-- What becomes of the parts of an expression. -/
theorem exists_at?_inScope {scope : DomainScope} (hscope : scope.NamesDomains) {expr : Expr}
    {position : Position} {found : Part} (hat : (Part.ofExpr expr).at? position = some found) :
    ∃ left, (Part.ofExpr (expr.inScope scope)).at? position = some left ∧
      found.Becomes scope.domain left := by
  induction position generalizing expr with
  | nil =>
      obtain rfl : Part.ofExpr expr = found := Option.some.inj hat
      exact ⟨_, rfl, becomes_inScope hscope expr⟩
  | cons step position ih =>
      obtain ⟨inner, hinner, hat⟩ := Part.at?_cons_eq_some.mp hat
      rw [Part.parts, List.getElem?_map, Option.map_eq_some_iff] at hinner
      obtain ⟨part, hpart, rfl⟩ := hinner
      obtain ⟨left, hleft, hbecomes⟩ := ih hat
      obtain ⟨added, -, hparts, -⟩ := exists_parts_inScope_eq hscope expr
      refine ⟨left, ?_, hbecomes⟩
      have hstep : (Part.ofExpr (expr.inScope scope)).parts[step]? =
          some (.ofExpr (part.inScope scope)) := by
        have hlt := (List.getElem?_eq_some_iff.mp hpart).1
        rw [Part.parts, hparts, List.getElem?_map, List.getElem?_append_left (by simpa using hlt),
          List.getElem?_map, hpart]
        rfl
      rw [Part.at?_cons, hstep, Option.bind_some, hleft]

end Expr

/-! ## Trees -/

/-- The domain that a scope hands on to the next node. -/
def DomainScope.known (scope : DomainScope) : Option Expr :=
  if scope.depth = 0 then none else scope.domain

theorem DomainScope.known_of_depth_ne_zero {scope : DomainScope} (hdepth : scope.depth ≠ 0) :
    scope.known = scope.domain := if_neg hdepth

theorem DomainScope.domain_enter (scope : DomainScope) (node : Node) :
    (scope.enter node).domain = (Part.ofNode node).defaultDomain?.or scope.known := by
  cases node <;> rfl

namespace Node

mutual

/-- Behind a tree the domain of the last tag in it is in force. -/
theorem domain_fillDomains (scope : DomainScope) (node : Node) :
    (node.fillDomains scope).2.domain = latestDomain scope.known (Part.ofNode node).walk := by
  rw [Part.walk_eq, latestDomain_cons, ← scope.domain_enter]
  cases node with
  | text data line => rfl
  | body nodes line =>
      have hdepth : (scope.enter (.body nodes line)).depth ≠ 0 := by simp
      exact domain_fillAll hdepth nodes
  | print expr line => exact (latestDomain_walk_exprs _ [expr]).symm
  | set name value line => exact (latestDomain_walk_exprs _ [value]).symm
  | trans tag => exact (latestDomain_walk_exprs _ tag.expressions).symm
  | defaultDomain domain line => exact (latestDomain_walk_exprs _ [domain]).symm

theorem domain_fillAll {scope : DomainScope} (hdepth : scope.depth ≠ 0) (nodes : List Node) :
    (fillAll scope nodes).2.domain =
      latestDomain scope.domain ((nodes.map Part.ofNode).flatMap Part.walk) := by
  cases nodes with
  | nil => rfl
  | cons node rest =>
      have hnext : (node.fillDomains scope).2.depth ≠ 0 := by rwa [depth_fillDomains]
      rw [List.map_cons, List.flatMap_cons, latestDomain_append,
        ← DomainScope.known_of_depth_ne_zero hdepth, ← domain_fillDomains scope node]
      exact domain_fillAll hnext rest

end

/-- A node among others is filled in from the scope that those in front of it leave. -/
theorem exists_getElem?_fillAll {scope : DomainScope} (hdepth : scope.depth ≠ 0)
    (hscope : scope.NamesDomains) {nodes : List Node} (hnodes : ∀ node ∈ nodes, node.NamesDomains)
    {step : Nat} {node : Node} (hnode : nodes[step]? = some node) :
    ∃ reached : DomainScope, reached.NamesDomains ∧
      reached.known =
        latestDomain scope.domain (((nodes.take step).map Part.ofNode).flatMap Part.walk) ∧
      (fillAll scope nodes).1[step]? = some (node.fillDomains reached).1 := by
  induction nodes generalizing scope step with
  | nil => cases hnode
  | cons first rest ih =>
      obtain ⟨hfirst, hrest⟩ := List.forall_mem_cons.mp hnodes
      cases step with
      | zero =>
          obtain rfl : first = node := Option.some.inj hnode
          exact ⟨scope, hscope, DomainScope.known_of_depth_ne_zero hdepth, rfl⟩
      | succ step =>
          have hnext : (first.fillDomains scope).2.depth ≠ 0 := by rwa [depth_fillDomains]
          obtain ⟨reached, hreached, hknown, hget⟩ :=
            ih hnext (namesDomains_fillDomains hscope hfirst) hrest hnode
          refine ⟨reached, hreached, ?_, hget⟩
          rw [hknown, domain_fillDomains, DomainScope.known_of_depth_ne_zero hdepth,
            List.take_succ_cons, List.map_cons, List.flatMap_cons, latestDomain_append]

theorem length_fillAll (scope : DomainScope) (nodes : List Node) :
    (fillAll scope nodes).1.length = nodes.length := by
  induction nodes generalizing scope with
  | nil => rfl
  | cons node rest ih => rw [fillAll, List.length_cons, ih, List.length_cons]

/-- The expressions of a filled node are its own, filled in, and behind them those it has got. -/
theorem exists_expressions_fillDomains_eq {scope : DomainScope} (hscope : scope.NamesDomains)
    {node : Node} (hnode : node.NamesDomains) :
    ∃ added : List Expr,
      (node.entered (scope.enter node).domain).expressions = node.expressions ++ added ∧
      (node.fillDomains scope).1.expressions =
        node.expressions.map (Expr.inScope (scope.enter node)) ++ added ∧
      ∀ expr ∈ added, (scope.enter node).domain = some expr := by
  have hinner := hscope.enter hnode
  cases node with
  | trans tag =>
      have hdomain := domain_inScope hinner tag
      cases htag : tag.domain with
      | some domain =>
          refine ⟨[], ?_, ?_, by simp⟩
          · simp [entered, expressions, TransTag.expressions, TransTag.entered, htag]
          · simp [fillDomains, expressions, TransTag.expressions, TransTag.inScope, htag,
              Option.toList_map]
      | none =>
          refine ⟨(scope.enter (.trans tag)).domain.toList, ?_, ?_, by simp⟩
          · simp [entered, expressions, TransTag.expressions, TransTag.entered, htag]
          · simp [fillDomains, expressions, TransTag.expressions, TransTag.inScope, htag,
              Option.toList_map]
  | _ => exact ⟨[], by simp [entered], by simp [fillDomains, expressions], by simp⟩

/-- The parts of a node that holds no nodes are its expressions, before and after it is filled in. -/
theorem exists_parts_fillDomains_eq {scope : DomainScope} (hscope : scope.NamesDomains) {node : Node}
    (hnode : node.NamesDomains) (hbody : ∀ nodes line, node ≠ .body nodes line) :
    ∃ added : List Expr,
      (Part.ofNode node).parts = node.expressions.map Part.ofExpr ∧
      (Part.ofNode (node.entered (scope.enter node).domain)).parts =
        (node.expressions ++ added).map Part.ofExpr ∧
      (Part.ofNode (node.fillDomains scope).1).parts =
        (node.expressions.map (Expr.inScope (scope.enter node)) ++ added).map Part.ofExpr := by
  obtain ⟨added, hentered, hfilled, -⟩ := exists_expressions_fillDomains_eq hscope hnode
  refine ⟨added, ?_⟩
  rw [← hentered, ← hfilled]
  cases node with
  | body nodes line => exact absurd rfl (hbody nodes line)
  | _ => exact ⟨rfl, rfl, rfl⟩

theorem shell_fillDomains {scope : DomainScope} (hscope : scope.NamesDomains) {node : Node}
    (hnode : node.NamesDomains) :
    (node.fillDomains scope).1.shell = (node.entered (scope.enter node).domain).shell := by
  have hinner := hscope.enter hnode
  cases node with
  | body nodes line => simp [fillDomains, shell, entered, length_fillAll]
  | trans tag =>
      have hdomain : (tag.inScope (scope.enter (.trans tag))).domain.map (fun _ => Expr.null) =
          (tag.entered (scope.enter (.trans tag)).domain).domain.map fun _ => Expr.null := by
        rw [domain_inScope hinner, Option.map_map]
        rfl
      rw [fillDomains, entered, shell, shell, hdomain]
      simp [TransTag.inScope, TransTag.entered, Function.comp_def]
  | _ => rfl

theorem becomes_fillDomains {scope : DomainScope} (hscope : scope.NamesDomains) {node : Node}
    (hnode : node.NamesDomains) :
    (Part.ofNode node).Becomes (latestDomain scope.known [.ofNode node])
      (.ofNode (node.fillDomains scope).1) := by
  have hdomain : latestDomain scope.known [.ofNode node] = (scope.enter node).domain :=
    (scope.domain_enter node).symm
  rw [hdomain]
  refine ⟨congrArg Part.ofNode (shell_fillDomains hscope hnode), ?_⟩
  by_cases hbody : ∃ nodes line, node = .body nodes line
  · obtain ⟨nodes, line, rfl⟩ := hbody
    rw [List.drop_of_length_le, List.drop_of_length_le]
    · exact Nat.le_refl _
    · simp [Part.parts, fillDomains, length_fillAll]
  · obtain ⟨added, hparts, hentered, hfilled⟩ :=
      exists_parts_fillDomains_eq hscope hnode (by simpa using hbody)
    rw [hparts, Part.entered, hentered, hfilled]
    simp

/-- What becomes of the parts of a tree. -/
theorem exists_at?_fillDomains {scope : DomainScope} (hscope : scope.NamesDomains) {node : Node}
    (hnode : node.NamesDomains) {position : Position} {found : Part}
    (hat : (Part.ofNode node).at? position = some found) :
    ∃ left, (Part.ofNode (node.fillDomains scope).1).at? position = some left ∧
      found.Becomes (latestDomain scope.known ((Part.ofNode node).upTo position)) left := by
  induction position generalizing scope node with
  | nil =>
      obtain rfl : Part.ofNode node = found := Option.some.inj hat
      exact ⟨_, rfl, becomes_fillDomains hscope hnode⟩
  | cons step position ih =>
      have hinner := hscope.enter hnode
      obtain ⟨part, hpart, hat⟩ := Part.at?_cons_eq_some.mp hat
      simp only [Part.upTo, hpart]
      rw [latestDomain_cons, ← scope.domain_enter, latestDomain_append]
      by_cases hbody : ∃ nodes line, node = .body nodes line
      · obtain ⟨nodes, line, rfl⟩ := hbody
        have hdepth : (scope.enter (.body nodes line)).depth ≠ 0 := by simp
        rw [Part.parts, List.getElem?_map, Option.map_eq_some_iff] at hpart
        obtain ⟨inner, hget, rfl⟩ := hpart
        obtain ⟨reached, hreached, hknown, hfilled⟩ :=
          exists_getElem?_fillAll hdepth hinner (fun node hmem => hnode.of_mem hmem) hget
        obtain ⟨left, hleft, hbecomes⟩ :=
          ih hreached (hnode.of_mem (List.mem_of_getElem? hget)) hat
        have hstep : (Part.ofNode ((body nodes line).fillDomains scope).1).parts[step]? =
            some (.ofNode (inner.fillDomains reached).1) := by
          rw [fillDomains, Part.parts, List.getElem?_map, hfilled]
          rfl
        refine ⟨left, ?_, ?_⟩
        · rw [Part.at?_cons, hstep, Option.bind_some, hleft]
        · rw [Part.parts, ← List.map_take, ← hknown]
          exact hbecomes
      · obtain ⟨added, hparts, -, hfilled⟩ :=
          exists_parts_fillDomains_eq hscope hnode (by simpa using hbody)
        rw [hparts, List.getElem?_map, Option.map_eq_some_iff] at hpart
        obtain ⟨expr, hget, rfl⟩ := hpart
        obtain ⟨left, hleft, hbecomes⟩ := Expr.exists_at?_inScope hinner hat
        have hstep : (Part.ofNode (node.fillDomains scope).1).parts[step]? =
            some (.ofExpr (expr.inScope (scope.enter node))) := by
          have hlt := (List.getElem?_eq_some_iff.mp hget).1
          rw [hfilled, List.getElem?_map, List.getElem?_append_left (by simpa using hlt),
            List.getElem?_map, hget]
          rfl
        refine ⟨left, ?_, ?_⟩
        · rw [Part.at?_cons, hstep, Option.bind_some, hleft]
        · rw [hparts, ← List.map_take, latestDomain_walk_exprs,
            Part.latestDomain_upTo_ofExpr _ hat]
          exact hbecomes

end Node

end TemplateMessages.Template

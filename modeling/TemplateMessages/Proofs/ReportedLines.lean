import TemplateMessages.Proofs.ReadLines
import TemplateMessages.Proofs.RecordedMessages

/-!
# Reported lines

Whatever a session reports of a template stands on a line of its source: the
fault for which it is refused, every node and filter of its tree with the default
domains filled in, and every message that is recorded.  A domain that is filled
in brings no lines of its own: it comes from a tag of the same tree, since an
outermost tree starts without one.
-/

namespace TemplateMessages.Template

variable {lines : Nat → Prop}

/-! ## Filling in default domains -/

namespace Expr

theorem line?_fillDomain (domain expr : Expr) : (fillDomain domain expr).line? = expr.line? := by
  cases expr <;> rfl

/-- The parts of a filled expression are its own, filled in, and behind them what a filter gets. -/
theorem exists_parts_fillDomain_eq (domain expr : Expr) :
    ∃ added : List Expr, (fillDomain domain expr).parts = expr.parts.map (fillDomain domain) ++ added ∧
      ∀ part ∈ added, part = .array [] ∨ part = domain := by
  cases hlacks : expr.lacksDomain with
  | false =>
      refine ⟨[], ?_, List.forall_mem_nil _⟩
      rw [fillDomain_of_not_lacks domain hlacks, parts_mapParts, List.append_nil]
  | true =>
      cases expr with
      | filter subject word arguments line =>
          rw [lacksDomain, Bool.and_eq_true, beq_iff_eq] at hlacks
          obtain ⟨added, hadded, hvalues⟩ := exists_addDomain_eq domain (fillArguments domain arguments)
          rw [fillArguments_eq] at hadded
          refine ⟨added.map (·.value), ?_, List.forall_mem_map.mpr hvalues⟩
          simp only [fillDomain, if_pos hlacks, parts, hadded, fillArguments_eq, List.map_append,
            List.map_cons, List.map_map, List.cons_append]
          rfl
      | _ => cases hlacks

/-- Filling in puts no line into an expression that is in neither it nor the domain. -/
theorem within_fillDomain {domain expr : Expr} (hdomain : domain.Within lines)
    (hexpr : expr.Within lines) : (fillDomain domain expr).Within lines := by
  induction expr using induction_on_parts with
  | hstep expr ih =>
      obtain ⟨hline, hparts⟩ := within_iff.mp hexpr
      obtain ⟨added, hfilled, hadded⟩ := exists_parts_fillDomain_eq domain expr
      rw [within_iff, line?_fillDomain, hfilled]
      refine ⟨hline, List.forall_mem_append.mpr ⟨?_, ?_⟩⟩
      · exact List.forall_mem_map.mpr fun part hpart => ih part hpart (hparts part hpart)
      · intro part hpart
        rcases hadded part hpart with rfl | rfl
        · exact within_array nofun
        · exact hdomain

end Expr

/-- Every line in the domain of the scope is one of the lines. -/
def DomainScope.Within (lines : Nat → Prop) (scope : DomainScope) : Prop :=
  ∀ domain, scope.domain = some domain → domain.Within lines

section Scope

variable {scope : DomainScope}

theorem Expr.within_inScope (hscope : scope.Within lines) {expr : Expr} (hexpr : expr.Within lines) :
    (expr.inScope scope).Within lines := by
  unfold inScope
  split
  case h_1 domain hdomain => exact within_fillDomain (hscope domain hdomain) hexpr
  case h_2 => exact hexpr

theorem TransTag.within_inScope (hscope : scope.Within lines) {tag : TransTag}
    (htag : ∀ expr ∈ tag.expressions, expr.Within lines) :
    ∀ expr ∈ (tag.inScope scope).expressions, expr.Within lines := by
  intro expr hexpr
  simp only [expressions, inScope, List.mem_append, Option.mem_toList, Option.map_eq_some_iff]
    at hexpr htag
  rcases hexpr with (⟨count, hcount, rfl⟩ | ⟨vars, hvars, rfl⟩) | hdomain
  · exact Expr.within_inScope hscope (htag count (.inl (.inl hcount)))
  · exact Expr.within_inScope hscope (htag vars (.inl (.inr hvars)))
  · split at hdomain
    case h_1 domain hown =>
      obtain rfl := Option.some.inj hdomain
      exact Expr.within_inScope hscope (htag domain (.inr hown))
    case h_2 => exact hscope expr hdomain

end Scope

namespace Node

/-- The default domains of a tree are in the tree. -/
theorem Within.defaultDomains {node : Node} (hnode : node.Within lines) :
    ∀ domain ∈ node.defaultDomains, domain.Within lines := by
  intro domain hdomain
  obtain ⟨part, hpart, hdefault⟩ := List.mem_filterMap.mp hdomain
  match part with
  | .ofNode (.defaultDomain found line) =>
      obtain rfl : found = domain := Option.some.inj hdefault
      exact (Part.Within.of_mem_walk hnode hpart).of_mem_parts List.mem_cons_self

mutual

theorem within_fillDomains {scope : DomainScope} (hscope : scope.Within lines) {node : Node}
    (hnode : node.Within lines) : (node.fillDomains scope).1.Within lines := by
  have hinner : (scope.enter node).Within lines :=
    DomainScope.forall_domain_enter hscope hnode.defaultDomains
  cases node with
  | body nodes line =>
      obtain ⟨hline, hnodes⟩ := within_body_iff.mp hnode
      rw [fillDomains]
      exact within_body_iff.mpr ⟨hline, within_fillAll hinner hnodes⟩
  | trans tag =>
      obtain ⟨hline, hexprs⟩ := (within_leaf_iff rfl).mp hnode
      rw [fillDomains]
      exact (within_leaf_iff rfl).mpr ⟨hline, TransTag.within_inScope hinner hexprs⟩
  | text data line => exact hnode
  | print expr line | set name expr line | defaultDomain expr line =>
      obtain ⟨hline, hexpr⟩ := (within_leaf_iff rfl).mp hnode
      have hfilled := Expr.within_inScope hinner (hexpr expr List.mem_cons_self)
      rw [fillDomains]
      exact (within_leaf_iff rfl).mpr ⟨hline, List.forall_mem_singleton.mpr hfilled⟩

theorem within_fillAll {scope : DomainScope} (hscope : scope.Within lines) {nodes : List Node}
    (hnodes : ∀ node ∈ nodes, node.Within lines) :
    ∀ node ∈ (fillAll scope nodes).1, node.Within lines := by
  cases nodes with
  | nil => exact nofun
  | cons node rest =>
      obtain ⟨hnode, hrest⟩ := List.forall_mem_cons.mp hnodes
      have hafter : (node.fillDomains scope).2.Within lines :=
        forall_domain_fillDomains hscope hnode.defaultDomains
      rw [fillAll]
      exact List.forall_mem_cons.mpr ⟨within_fillDomains hscope hnode, within_fillAll hafter hrest⟩

end

/-- What an outermost tree gets comes from its own tags. -/
theorem within_fillDomains_of_depth_eq_zero {scope : DomainScope} (hdepth : scope.depth = 0)
    {node : Node} (hnode : node.Within lines) : (node.fillDomains scope).1.Within lines := by
  have houtermost : DomainScope.outermost.Within lines := by
    intro domain hdomain
    cases hdomain
  rw [fillDomains_of_depth_eq_zero hdepth]
  exact within_fillDomains houtermost hnode

end Node

/-! ## Messages -/

/-- A message stands on the line of the part that declares it. -/
theorem Part.Declares.line?_eq {part : Part} {message : Message} (hdeclares : part.Declares message) :
    part.line? = some message.line := by
  cases hdeclares <;> rfl

theorem Node.Within.messages {node : Node} (hnode : node.Within lines) :
    ∀ message ∈ Message.ofNode node, lines message.line := by
  intro message hmessage
  rw [Part.ofNode_eq_filterMap_walk] at hmessage
  obtain ⟨part, hpart, hdeclared⟩ := List.mem_filterMap.mp hmessage
  exact (Part.Within.of_mem_walk hnode hpart).line _ (Part.declares_iff.mpr hdeclared).line?_eq

/-! ## Sessions -/

/-- A line of the source: they are counted from one, and every line feed starts another. -/
def Source.HasLine (source : Source) (line : Nat) : Prop :=
  1 ≤ line ∧ line ≤ 1 + countLineFeeds source.code.toList

instance (source : Source) (line : Nat) : Decidable (source.HasLine line) :=
  inferInstanceAs (Decidable (1 ≤ line ∧ line ≤ 1 + countLineFeeds source.code.toList))

namespace Session

/-- Whatever requests a session has served before: a fault of syntax is on a line of the source and
under its name, every node and filter of the tree of a template is on a line of its source, and so
is every message that the template adds to the recorded ones. -/
theorem hasLine_of_parse (catalog : Gettext.Catalog) (history : List Action) (source : Source) :
    (∀ fault, (((start catalog).after history).parse source).1 = .error (.malformed fault) →
      source.HasLine fault.line ∧ fault.template = source.name) ∧
    (∀ node, (((start catalog).after history).parse source).1 = .ok node →
      ∀ part ∈ (Part.ofNode node).walk, ∀ line ∈ part.line?, source.HasLine line) ∧
    ∃ recorded, (((start catalog).after history).parse source).2.recorder.messages =
        ((start catalog).after history).recorder.messages ++ recorded ∧
      ∀ message ∈ recorded, source.HasLine message.line := by
  have hdepth := (settled_after (settled_start catalog) history).outermost
  generalize (start catalog).after history = session at hdepth ⊢
  have hreads : Ensures _ (Node.Within source.HasLine) (source.read allTags) :=
    source.ensures_read fun _ hline => hline
  cases hread : source.read allTags with
  | error error =>
      rw [hread] at hreads
      have hparse : session.parse source = (.error error, session) := by rw [parse, hread]
      rw [hparse]
      refine ⟨fun fault hfault => ?_, fun node hnode => ?_, [], ?_, List.forall_mem_nil _⟩
      · exact hreads.of_error fault (Except.error.inj hfault)
      · cases hnode
      · rw [List.append_nil]
  | ok written =>
      rw [hread] at hreads
      have hfilled := Node.within_fillDomains_of_depth_eq_zero hdepth hreads.of_ok
      rw [parse_eq_of_read hread]
      refine ⟨fun fault hfault => ?_, fun node hnode part hpart => ?_, ?_⟩
      · cases hfault
      · rw [← Except.ok.inj hnode] at hpart
        exact (Part.Within.of_mem_walk hfilled hpart).line
      · cases henabled : session.recorder.enabled with
        | true =>
            refine ⟨_, ?_, hfilled.messages⟩
            rw [Recorder.observe, if_pos henabled]
        | false =>
            refine ⟨[], ?_, List.forall_mem_nil _⟩
            rw [Recorder.observe, henabled, List.append_nil]
            rfl

end Session

end TemplateMessages.Template

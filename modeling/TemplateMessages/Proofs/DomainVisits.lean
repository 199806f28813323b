import TemplateMessages.Proofs.Positions
import TemplateMessages.Template.DomainScope

/-!
# Filling in default domains on a walk

Default domains are filled in on a walk over the tree: an expression is changed
when it is entered, and then everything in the changed expression is visited,
the domain that has just been put in included.  `Expr.visit` and `Node.visit`
are that walk, with a bound on its depth.  A domain that holds a `trans` filter
without a domain would be put into itself without end; when every default
domain names the domains in it the walk comes to its end, and what it leaves is
the tree that `fillDomains` builds.
-/

namespace TemplateMessages.Template

namespace Expr

/-- A `trans` filter without a domain. -/
def lacksDomain : Expr → Bool
  | .filter _ word arguments _ =>
      word == TransTag.filterName && (findArgument arguments "domain").isNone
  | _ => false

/-- Every `trans` filter in the expression has a domain. -/
def NamesDomains (expr : Expr) : Prop :=
  ∀ inner ∈ expr.subterms, inner.lacksDomain = false

instance (expr : Expr) : Decidable expr.NamesDomains :=
  inferInstanceAs (Decidable (∀ inner ∈ expr.subterms, inner.lacksDomain = false))

/-- The expression once it is entered: a `trans` filter without a domain gets the one in force. -/
def entered (domain : Option Expr) : Expr → Expr
  | .filter subject word arguments line =>
      .filter subject word
        (match domain with
        | some domain =>
            if word = TransTag.filterName ∧ (findArgument arguments "domain").isNone then
              addDomain domain arguments
            else arguments
        | none => arguments) line
  | expr => expr

/-- The expression with each of its parts changed. -/
def mapParts (change : Expr → Expr) : Expr → Expr
  | .constant value => .constant value
  | .name word => .name word
  | .array items => .array (items.map change)
  | .map entries => .map (entries.map fun entry => (change entry.1, change entry.2))
  | .filter subject word arguments line =>
      .filter (change subject) word
        (arguments.map fun argument => ⟨argument.name, change argument.value⟩) line
  | .merge left right => .merge (change left) (change right)

/-- The same with a change that may come to no end; the parts are visited in order. -/
def mapParts? (change : Expr → Option Expr) : Expr → Option Expr
  | .constant value => some (.constant value)
  | .name word => some (.name word)
  | .array items => (items.mapM change).map .array
  | .map entries =>
      (entries.mapM fun (entry : Expr × Expr) => do
        let key ← change entry.1
        let value ← change entry.2
        return (key, value)).map .map
  | .filter subject word arguments line => do
      let subject ← change subject
      let arguments ← arguments.mapM fun argument =>
        (change argument.value).map fun value => ⟨argument.name, value⟩
      return .filter subject word arguments line
  | .merge left right => do
      let left ← change left
      let right ← change right
      return .merge left right

/-- The walk over an expression with a domain in force, at most so deep. -/
def visit (domain : Option Expr) : Nat → Expr → Option Expr
  | 0, _ => none
  | bound + 1, expr => (expr.entered domain).mapParts? (visit domain bound)

end Expr

/-- The tag once it is entered. -/
def TransTag.entered (domain : Option Expr) (tag : TransTag) : TransTag where
  body := tag.body
  plural := tag.plural
  domain := tag.domain.or domain
  count := tag.count
  vars := tag.vars
  notes := tag.notes
  context := tag.context
  line := tag.line

namespace Node

/-- Visits nodes one after the other, each in the scope that the one before it leaves. -/
def visitEach (visit : DomainScope → Node → Option (Node × DomainScope)) (scope : DomainScope) :
    List Node → Option (List Node × DomainScope)
  | [] => some ([], scope)
  | node :: rest => do
      let (node, scope) ← visit scope node
      let (nodes, scope) ← visitEach visit scope rest
      return (node :: nodes, scope)

/-- The walk over a tree from a scope, at most so deep, with the scope behind it. -/
def visit : Nat → DomainScope → Node → Option (Node × DomainScope)
  | 0, _, _ => none
  | bound + 1, scope, node =>
      let inner := scope.enter node
      match node with
      | .text data line => some (.text data line, inner.leave)
      | .print expr line => do
          let expr ← expr.visit inner.domain bound
          return (.print expr line, inner.leave)
      | .set name value line => do
          let value ← value.visit inner.domain bound
          return (.set name value line, inner.leave)
      | .body nodes line => do
          let (nodes, inner) ← visitEach (visit bound) inner nodes
          return (.body nodes line, inner.leave)
      | .trans tag => do
          let tag := tag.entered inner.domain
          let count ← tag.count.mapM (Expr.visit inner.domain bound)
          let vars ← tag.vars.mapM (Expr.visit inner.domain bound)
          let domain ← tag.domain.mapM (Expr.visit inner.domain bound)
          return (.trans ⟨tag.body, tag.plural, domain, count, vars, tag.notes, tag.context,
            tag.line⟩, inner.leave)
      | .defaultDomain domain line => do
          let domain ← domain.visit inner.domain bound
          return (.defaultDomain domain line, inner.leave)

end Node

/-! ## Parts of changed expressions -/

namespace Expr

theorem parts_mapParts (change : Expr → Expr) (expr : Expr) :
    (expr.mapParts change).parts = expr.parts.map change := by
  cases expr <;> simp [mapParts, parts, List.flatMap_map, List.map_flatMap, Function.comp_def]

theorem mapParts_congr {first second : Expr → Expr} {expr : Expr}
    (hsame : ∀ part ∈ expr.parts, first part = second part) :
    expr.mapParts first = expr.mapParts second := by
  cases expr with
  | map entries =>
      have hentries : ∀ entry ∈ entries, first entry.1 = second entry.1 ∧
          first entry.2 = second entry.2 := by
        intro entry hentry
        exact ⟨hsame _ (List.mem_flatMap.mpr ⟨entry, hentry, by simp⟩),
          hsame _ (List.mem_flatMap.mpr ⟨entry, hentry, by simp⟩)⟩
      simpa [mapParts] using fun key value hentry => hentries (key, value) hentry
  | _ => simp_all [mapParts, parts]

@[simp]
theorem mapParts_id (expr : Expr) : expr.mapParts id = expr := by
  cases expr <;> simp [mapParts]

theorem mapParts_eq_self {change : Expr → Expr} {expr : Expr}
    (hsame : ∀ part ∈ expr.parts, change part = part) : expr.mapParts change = expr := by
  calc
    expr.mapParts change = expr.mapParts id := mapParts_congr hsame
    _ = expr := mapParts_id expr

theorem mapM_eq_some_map {α β : Type} {change? : α → Option β} {change : α → β} {items : List α}
    (hitems : ∀ item ∈ items, change? item = some (change item)) :
    items.mapM change? = some (items.map change) := by
  induction items with
  | nil => rfl
  | cons item rest ih =>
      obtain ⟨hitem, hrest⟩ := List.forall_mem_cons.mp hitems
      rw [List.mapM_cons, hitem, ih hrest]
      rfl

/-- Where the change of every part comes to its end, so does that of the expression. -/
theorem mapParts?_eq_some {change? : Expr → Option Expr} {change : Expr → Expr} {expr : Expr}
    (hparts : ∀ part ∈ expr.parts, change? part = some (change part)) :
    expr.mapParts? change? = some (expr.mapParts change) := by
  cases expr with
  | constant value => rfl
  | name word => rfl
  | array items =>
      have hitems : ∀ item ∈ items, change? item = some (change item) := hparts
      rw [mapParts?, mapM_eq_some_map hitems, Option.map_some, mapParts]
  | map entries =>
      have hentries : ∀ entry ∈ entries, (do
          let key ← change? entry.1
          let value ← change? entry.2
          return (key, value)) = some (change entry.1, change entry.2) := by
        intro entry hentry
        have hkey := hparts entry.1 (List.mem_flatMap.mpr ⟨entry, hentry, by simp⟩)
        have hvalue := hparts entry.2 (List.mem_flatMap.mpr ⟨entry, hentry, by simp⟩)
        rw [hkey, hvalue]
        rfl
      rw [mapParts?, mapM_eq_some_map hentries, Option.map_some, mapParts]
  | filter subject word arguments line =>
      obtain ⟨hsubject, hvalues⟩ := List.forall_mem_cons.mp hparts
      have harguments : ∀ argument ∈ arguments,
          ((change? argument.value).map fun value => (⟨argument.name, value⟩ : Argument Expr)) =
            some ⟨argument.name, change argument.value⟩ := by
        intro argument hargument
        rw [hvalues _ (List.mem_map_of_mem hargument), Option.map_some]
      rw [mapParts?, hsubject, mapM_eq_some_map harguments, mapParts]
      rfl
  | merge left right =>
      have hleft := hparts left (by simp [parts])
      have hright := hparts right (by simp [parts])
      rw [mapParts?, hleft, hright, mapParts]
      rfl

theorem NamesDomains.of_mem_parts {expr part : Expr} (hnames : expr.NamesDomains)
    (hpart : part ∈ expr.parts) : part.NamesDomains := by
  intro inner hinner
  apply hnames
  rw [subterms_eq]
  exact List.mem_cons_of_mem _ (List.mem_flatMap.mpr ⟨part, hpart, hinner⟩)

theorem NamesDomains.lacksDomain_eq {expr : Expr} (hnames : expr.NamesDomains) :
    expr.lacksDomain = false := by
  apply hnames
  rw [subterms_eq]
  exact List.mem_cons_self

theorem namesDomains_iff {expr : Expr} :
    expr.NamesDomains ↔ expr.lacksDomain = false ∧ ∀ part ∈ expr.parts, part.NamesDomains := by
  constructor
  · intro hnames
    exact ⟨hnames.lacksDomain_eq, fun part hpart => hnames.of_mem_parts hpart⟩
  · rintro ⟨hself, hparts⟩ inner hinner
    rw [subterms_eq] at hinner
    rcases List.mem_cons.mp hinner with rfl | hinner
    · exact hself
    · obtain ⟨part, hpart, hinner⟩ := List.mem_flatMap.mp hinner
      exact hparts part hpart inner hinner

/-! ## Filling in a domain, part by part -/

theorem fillItems_eq (domain : Expr) (items : List Expr) :
    fillItems domain items = items.map (fillDomain domain) := by
  induction items with
  | nil => rfl
  | cons item rest ih => rw [fillItems, ih, List.map_cons]

theorem fillEntries_eq (domain : Expr) (entries : List (Expr × Expr)) :
    fillEntries domain entries =
      entries.map fun entry => (fillDomain domain entry.1, fillDomain domain entry.2) := by
  induction entries with
  | nil => rfl
  | cons entry rest ih => rw [fillEntries, ih, List.map_cons]

theorem fillArguments_eq (domain : Expr) (arguments : List (Argument Expr)) :
    fillArguments domain arguments =
      arguments.map fun argument => ⟨argument.name, fillDomain domain argument.value⟩ := by
  induction arguments with
  | nil => rfl
  | cons argument rest ih => rw [fillArguments, ih, List.map_cons]

/-- An expression that lacks no domain itself is only changed in its parts. -/
theorem fillDomain_of_not_lacks (domain : Expr) {expr : Expr} (hlacks : expr.lacksDomain = false) :
    fillDomain domain expr = expr.mapParts (fillDomain domain) := by
  cases expr with
  | constant value => rfl
  | name word => rfl
  | array items => rw [fillDomain, fillItems_eq, mapParts]
  | map entries => rw [fillDomain, fillEntries_eq, mapParts]
  | filter subject word arguments line =>
      have hgiven : ¬(word = TransTag.filterName ∧ (findArgument arguments "domain").isNone) := by
        simpa only [lacksDomain, Bool.and_eq_false_iff, beq_eq_false_iff_ne, not_and_or,
          Bool.not_eq_true] using hlacks
      simp only [fillDomain, mapParts, if_neg hgiven, fillArguments_eq]
  | merge left right => rfl

/-- An expression all of whose `trans` filters have a domain stays as it is. -/
theorem fillDomain_of_namesDomains (domain : Expr) {expr : Expr} (hnames : expr.NamesDomains) :
    fillDomain domain expr = expr := by
  induction expr using induction_on_parts with
  | hstep expr ih =>
      rw [fillDomain_of_not_lacks domain hnames.lacksDomain_eq]
      exact mapParts_eq_self fun part hpart => ih part hpart (hnames.of_mem_parts hpart)

/-- A domain may be added to arguments before their values are changed or after it, when the change
leaves the domain as it is. -/
theorem addDomain_map {change : Expr → Expr} {domain : Expr} (harray : change (.array []) = .array [])
    (hdomain : change domain = domain) (arguments : List (Argument Expr)) :
    addDomain domain (arguments.map fun argument => ⟨argument.name, change argument.value⟩) =
      (addDomain domain arguments).map fun argument => ⟨argument.name, change argument.value⟩ := by
  have hnamed : (arguments.map fun argument =>
        (⟨argument.name, change argument.value⟩ : Argument Expr)).any
      (fun argument => argument.name.isSome) =
        arguments.any fun argument => argument.name.isSome := by
    simp [List.any_map, Function.comp_def]
  unfold addDomain
  rw [hnamed, List.isEmpty_map]
  split
  case isTrue => simp [Argument.named, hdomain]
  case isFalse =>
    split
    case isTrue => simp [Argument.positional, harray, hdomain]
    case isFalse => simp [Argument.positional, hdomain]

/-- The walk in one step: the expression is entered, and the parts of what it has become are filled
in.  The domain is among these parts and stays as it is. -/
theorem fillDomain_eq_mapParts {domain : Expr} (hdomain : domain.NamesDomains) (expr : Expr) :
    fillDomain domain expr = (expr.entered (some domain)).mapParts (fillDomain domain) := by
  cases expr with
  | filter subject word arguments line =>
      have harray : fillDomain domain (.array []) = .array [] := rfl
      have hself := fillDomain_of_namesDomains domain hdomain
      simp only [fillDomain, entered, mapParts, fillArguments_eq]
      split
      case isTrue => rw [addDomain_map harray hself]
      case isFalse => rfl
  | _ => exact fillDomain_of_not_lacks domain rfl

theorem inScope_eq_mapParts {scope : DomainScope}
    (hscope : ∀ domain, scope.domain = some domain → domain.NamesDomains) (expr : Expr) :
    expr.inScope scope = (expr.entered scope.domain).mapParts (inScope scope) := by
  cases hdomain : scope.domain with
  | none =>
      have hsame : ∀ expr : Expr, expr.inScope scope = expr := by
        intro expr
        rw [inScope, hdomain]
      have hentered : expr.entered none = expr := by cases expr <;> rfl
      rw [hsame, hentered, mapParts_eq_self fun part _ => hsame part]
  | some domain =>
      have hfill : inScope scope = fillDomain domain := by
        funext expr
        rw [inScope, hdomain]
      rw [hfill]
      exact fillDomain_eq_mapParts (hscope domain hdomain) expr

/-- The walk comes to its end before it is deeper than its result has size. -/
theorem visit_eq_some {scope : DomainScope}
    (hscope : ∀ domain, scope.domain = some domain → domain.NamesDomains) {bound : Nat}
    {expr : Expr} (hbound : sizeOf (expr.inScope scope) ≤ bound) :
    expr.visit scope.domain bound = some (expr.inScope scope) := by
  induction bound generalizing expr with
  | zero => cases h : expr.inScope scope <;> simp [h] at hbound
  | succ bound ih =>
      have hstep := inScope_eq_mapParts hscope expr
      rw [visit, hstep]
      apply mapParts?_eq_some
      intro part hpart
      apply ih
      have hmem : part.inScope scope ∈ (expr.inScope scope).parts := by
        rw [hstep, parts_mapParts]
        exact List.mem_map_of_mem hpart
      have := sizeOf_lt_of_mem_parts hmem
      omega

end Expr

/-! ## Trees -/

/-- The domain of a `trans_default_domain` tag. -/
def Part.defaultDomain? : Part → Option Expr
  | .ofNode (.defaultDomain domain _) => some domain
  | _ => none

namespace Node

/-- The default domains that a tree sets, in the order of the walk. -/
def defaultDomains (node : Node) : List Expr :=
  (Part.ofNode node).walk.filterMap Part.defaultDomain?

/-- No default domain holds a `trans` filter without a domain. -/
def NamesDomains (node : Node) : Prop :=
  ∀ domain ∈ node.defaultDomains, domain.NamesDomains

instance (node : Node) : Decidable node.NamesDomains :=
  inferInstanceAs (Decidable (∀ domain ∈ node.defaultDomains, domain.NamesDomains))

@[simp]
theorem defaultDomains_body (nodes : List Node) (line : Nat) :
    (body nodes line).defaultDomains = nodes.flatMap defaultDomains := by
  rw [defaultDomains, Part.walk_eq, Part.parts, List.filterMap_cons_none rfl, List.filterMap_flatMap,
    List.flatMap_map]
  rfl

theorem domain_mem_defaultDomains (domain : Expr) (line : Nat) :
    domain ∈ (defaultDomain domain line).defaultDomains := by
  rw [defaultDomains, Part.walk_eq]
  exact List.mem_cons_self

theorem mem_defaultDomains_body {nodes : List Node} {line : Nat} {node : Node} (hnode : node ∈ nodes)
    {domain : Expr} (hdomain : domain ∈ node.defaultDomains) :
    domain ∈ (body nodes line).defaultDomains := by
  rw [defaultDomains_body]
  exact List.mem_flatMap.mpr ⟨node, hnode, hdomain⟩

theorem NamesDomains.of_mem {nodes : List Node} {line : Nat} (hnames : (body nodes line).NamesDomains)
    {node : Node} (hnode : node ∈ nodes) : node.NamesDomains :=
  fun domain hdomain => hnames domain (mem_defaultDomains_body hnode hdomain)

end Node

/-! ### The domain of a scope -/

section Carried

variable {carries : Expr → Prop}

/-- What the default domains have in common with the domain of the scope, the domain of a scope
that is entered has as well. -/
theorem DomainScope.forall_domain_enter {scope : DomainScope}
    (hscope : ∀ domain, scope.domain = some domain → carries domain) {node : Node}
    (hnode : ∀ domain ∈ node.defaultDomains, carries domain) :
    ∀ domain, (scope.enter node).domain = some domain → carries domain := by
  have hknown : ∀ domain, (if scope.depth = 0 then none else scope.domain) = some domain →
      carries domain := by
    intro domain hdomain
    split at hdomain
    case isTrue => cases hdomain
    case isFalse => exact hscope domain hdomain
  cases node with
  | defaultDomain domain line =>
      intro found hfound
      obtain rfl : domain = found := Option.some.inj hfound
      exact hnode domain (Node.domain_mem_defaultDomains domain line)
  | _ => exact hknown

namespace Node

mutual

theorem forall_domain_fillDomains {scope : DomainScope}
    (hscope : ∀ domain, scope.domain = some domain → carries domain) {node : Node}
    (hnode : ∀ domain ∈ node.defaultDomains, carries domain) :
    ∀ domain, (node.fillDomains scope).2.domain = some domain → carries domain := by
  have hinner := DomainScope.forall_domain_enter hscope hnode
  cases node with
  | body nodes line =>
      exact forall_domain_fillAll hinner fun node hmem domain hdomain =>
        hnode domain (mem_defaultDomains_body hmem hdomain)
  | _ => exact hinner

theorem forall_domain_fillAll {scope : DomainScope}
    (hscope : ∀ domain, scope.domain = some domain → carries domain) {nodes : List Node}
    (hnodes : ∀ node ∈ nodes, ∀ domain ∈ node.defaultDomains, carries domain) :
    ∀ domain, (fillAll scope nodes).2.domain = some domain → carries domain := by
  cases nodes with
  | nil => exact hscope
  | cons node rest =>
      obtain ⟨hnode, hrest⟩ := List.forall_mem_cons.mp hnodes
      exact forall_domain_fillAll (forall_domain_fillDomains hscope hnode) hrest

end

end Node

end Carried

/-- A scope whose domain names the domains in it. -/
def DomainScope.NamesDomains (scope : DomainScope) : Prop :=
  ∀ domain, scope.domain = some domain → domain.NamesDomains

theorem DomainScope.NamesDomains.enter {scope : DomainScope} (hscope : scope.NamesDomains)
    {node : Node} (hnode : node.NamesDomains) : (scope.enter node).NamesDomains :=
  forall_domain_enter hscope hnode

namespace Node

theorem namesDomains_fillDomains {scope : DomainScope} (hscope : scope.NamesDomains) {node : Node}
    (hnode : node.NamesDomains) : (node.fillDomains scope).2.NamesDomains :=
  forall_domain_fillDomains hscope hnode

theorem mapM_visit_eq_some {scope : DomainScope} (hscope : scope.NamesDomains) {bound : Nat}
    {expr : Option Expr} (hbound : sizeOf (expr.map (Expr.inScope scope)) ≤ bound + 1) :
    expr.mapM (Expr.visit scope.domain bound) = some (expr.map (Expr.inScope scope)) := by
  cases expr with
  | none => rfl
  | some expr =>
      have hvisit : expr.visit scope.domain bound = some (expr.inScope scope) := by
        apply Expr.visit_eq_some hscope
        simp only [Option.map_some, Option.some.sizeOf_spec] at hbound
        omega
      simp [hvisit]

theorem sizeOf_operands_lt (tag : TransTag) :
    sizeOf tag.count + sizeOf tag.vars + sizeOf tag.domain < sizeOf tag := by
  cases tag
  simp only [TransTag.mk.sizeOf_spec]
  omega

/-- The domain that is put into a tag is visited as its own would be, and stays as it is. -/
theorem domain_inScope {scope : DomainScope} (hscope : scope.NamesDomains) (tag : TransTag) :
    (tag.inScope scope).domain = (tag.entered scope.domain).domain.map (Expr.inScope scope) := by
  cases htag : tag.domain with
  | some domain => simp [TransTag.inScope, TransTag.entered, htag]
  | none =>
      cases hdomain : scope.domain with
      | none => simp [TransTag.inScope, TransTag.entered, htag, hdomain]
      | some domain =>
          have hself : domain.inScope scope = domain := by
            rw [Expr.inScope, hdomain]
            exact Expr.fillDomain_of_namesDomains domain (hscope domain hdomain)
          simp [TransTag.inScope, TransTag.entered, htag, hdomain, hself]

/-- A tag is visited once its expressions are: the count, the mapping and the domain, be it its own
or the one that is put in. -/
theorem visit_trans_eq_some {bound : Nat} {scope : DomainScope} {tag : TransTag}
    (hinner : (scope.enter (.trans tag)).NamesDomains)
    (hbound : sizeOf (tag.inScope (scope.enter (.trans tag))) ≤ bound) :
    (trans tag).visit (bound + 1) scope = some ((trans tag).fillDomains scope) := by
  have hparts := sizeOf_operands_lt (tag.inScope (scope.enter (.trans tag)))
  have hcount : tag.count.mapM (Expr.visit (scope.enter (.trans tag)).domain bound) =
      some (tag.count.map (Expr.inScope (scope.enter (.trans tag)))) := by
    apply mapM_visit_eq_some hinner
    simp only [TransTag.inScope] at hparts hbound
    omega
  have hvars : tag.vars.mapM (Expr.visit (scope.enter (.trans tag)).domain bound) =
      some (tag.vars.map (Expr.inScope (scope.enter (.trans tag)))) := by
    apply mapM_visit_eq_some hinner
    simp only [TransTag.inScope] at hparts hbound
    omega
  have hdomain : (tag.entered (scope.enter (.trans tag)).domain).domain.mapM
      (Expr.visit (scope.enter (.trans tag)).domain bound) =
        some (tag.inScope (scope.enter (.trans tag))).domain := by
    rw [domain_inScope hinner]
    apply mapM_visit_eq_some hinner
    rw [← domain_inScope hinner]
    omega
  simp only [visit, TransTag.entered, fillDomains] at hdomain ⊢
  simp only [hcount, hvars, hdomain]
  rfl

/-- Nodes are visited one after the other as each of them is visited. -/
theorem visitEach_eq_some {visit : DomainScope → Node → Option (Node × DomainScope)}
    {scope : DomainScope} (hscope : scope.NamesDomains) {nodes : List Node}
    (hnodes : ∀ node ∈ nodes, node.NamesDomains) {bound : Nat}
    (hvisit : ∀ (node : Node) (scope : DomainScope), node.NamesDomains → scope.NamesDomains →
      sizeOf (node.fillDomains scope).1 ≤ bound → visit scope node = some (node.fillDomains scope))
    (hbound : sizeOf (fillAll scope nodes).1 ≤ bound) :
    visitEach visit scope nodes = some (fillAll scope nodes) := by
  induction nodes generalizing scope with
  | nil => rfl
  | cons node rest ih =>
      obtain ⟨hnode, hrest⟩ := List.forall_mem_cons.mp hnodes
      simp only [fillAll, List.cons.sizeOf_spec] at hbound
      have hfirst := hvisit node scope hnode hscope (by omega)
      have hothers := ih (namesDomains_fillDomains hscope hnode) hrest (by omega)
      rw [visitEach, hfirst]
      simp only [Option.bind_eq_bind, Option.bind_some, hothers]
      rfl

/-- The walk over a tree whose default domains name the domains in them comes to its end, and it
leaves the tree with the default domains filled in. -/
theorem visit_eq_some {bound : Nat} {scope : DomainScope} (hscope : scope.NamesDomains) {node : Node}
    (hnode : node.NamesDomains) (hbound : sizeOf (node.fillDomains scope).1 ≤ bound) :
    node.visit bound scope = some (node.fillDomains scope) := by
  induction bound generalizing scope node with
  | zero => cases h : (node.fillDomains scope).1 <;> simp [h] at hbound
  | succ bound ih =>
      have hinner := hscope.enter hnode
      cases node with
      | text data line => rfl
      | print expr line =>
          have hsize : sizeOf (expr.inScope (scope.enter (.print expr line))) ≤ bound := by
            simp only [fillDomains, print.sizeOf_spec] at hbound
            omega
          have hexpr := Expr.visit_eq_some hinner hsize
          simp only [visit, hexpr, fillDomains]
          rfl
      | set name value line =>
          have hsize : sizeOf (value.inScope (scope.enter (.set name value line))) ≤ bound := by
            simp only [fillDomains, set.sizeOf_spec] at hbound
            omega
          have hvalue := Expr.visit_eq_some hinner hsize
          simp only [visit, hvalue, fillDomains]
          rfl
      | body nodes line =>
          have hsize : sizeOf (fillAll (scope.enter (.body nodes line)) nodes).1 ≤ bound := by
            simp only [fillDomains, body.sizeOf_spec] at hbound
            omega
          have hnodes : visitEach (visit bound) (scope.enter (.body nodes line)) nodes =
              some (fillAll (scope.enter (.body nodes line)) nodes) := by
            refine visitEach_eq_some hinner (fun node hmem => hnode.of_mem hmem) ?_ hsize
            intro node scope hnode hscope hbound
            exact ih hscope hnode hbound
          simp only [visit, hnodes, fillDomains]
          rfl
      | trans tag =>
          refine visit_trans_eq_some hinner ?_
          simp only [fillDomains, trans.sizeOf_spec] at hbound
          omega
      | defaultDomain domain line =>
          have hsize : sizeOf (domain.inScope (scope.enter (.defaultDomain domain line))) ≤ bound := by
            simp only [fillDomains, defaultDomain.sizeOf_spec] at hbound
            omega
          have hdomain := Expr.visit_eq_some hinner hsize
          simp only [visit, hdomain, fillDomains]
          rfl

end Node

end TemplateMessages.Template

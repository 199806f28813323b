import TemplateMessages.Template.Node
import TemplateMessages.Template.TransFilter

/-!
# The default domain of a template

From a `trans_default_domain` tag on, every trans tag and every `trans` filter
of the template that names no domain gets the one of the tag.  The scope that
carries it is shared by all templates: entering an outermost node starts a new
one.
-/

namespace TemplateMessages.Template

structure DomainScope where
  /-- The count of nodes that are entered and not yet left. -/
  depth : Nat
  domain : Option Expr
deriving Repr

namespace DomainScope

def outermost : DomainScope := ⟨0, none⟩

def enter (scope : DomainScope) (node : Node) : DomainScope :=
  let known := if scope.depth = 0 then none else scope.domain
  match node with
  | .defaultDomain domain _ => ⟨scope.depth + 1, some domain⟩
  | _ => ⟨scope.depth + 1, known⟩

def leave (scope : DomainScope) : DomainScope :=
  ⟨scope.depth - 1, scope.domain⟩

end DomainScope

/-- Adds a domain to arguments without one: by name when an argument has a name,
and otherwise in the second place, behind empty replacements if need be. -/
def addDomain (domain : Expr) (arguments : List (Argument Expr)) : List (Argument Expr) :=
  if arguments.any fun argument => argument.name.isSome then
    arguments ++ [.named "domain" domain]
  else if arguments.isEmpty then [.positional (.array []), .positional domain]
  else arguments ++ [.positional domain]

namespace Expr

mutual

/-- The expression with a domain for each `trans` filter in it that has none.
The domain itself is put in as it is written. -/
def fillDomain (domain : Expr) : Expr → Expr
  | .constant value => .constant value
  | .name word => .name word
  | .array items => .array (fillItems domain items)
  | .map entries => .map (fillEntries domain entries)
  | .filter subject word arguments line =>
      let filled := fillArguments domain arguments
      .filter (fillDomain domain subject) word
        (if word = TransTag.filterName ∧ (findArgument arguments "domain").isNone then
          addDomain domain filled
        else filled) line
  | .merge left right => .merge (fillDomain domain left) (fillDomain domain right)

def fillItems (domain : Expr) : List Expr → List Expr
  | [] => []
  | item :: rest => fillDomain domain item :: fillItems domain rest

def fillEntries (domain : Expr) : List (Expr × Expr) → List (Expr × Expr)
  | [] => []
  | (key, value) :: rest =>
      (fillDomain domain key, fillDomain domain value) :: fillEntries domain rest

def fillArguments (domain : Expr) : List (Argument Expr) → List (Argument Expr)
  | [] => []
  | ⟨label, value⟩ :: rest => ⟨label, fillDomain domain value⟩ :: fillArguments domain rest

end

/-- The expression in a scope: unchanged while no default domain is set. -/
def inScope (scope : DomainScope) (expr : Expr) : Expr :=
  match scope.domain with
  | some domain => fillDomain domain expr
  | none => expr

end Expr

/-- The tag in a scope, with the domain of the scope when it has none. -/
def TransTag.inScope (tag : TransTag) (scope : DomainScope) : TransTag where
  body := tag.body
  plural := tag.plural
  domain := match tag.domain with
    | some domain => some (domain.inScope scope)
    | none => scope.domain
  count := tag.count.map (Expr.inScope scope)
  vars := tag.vars.map (Expr.inScope scope)
  notes := tag.notes
  context := tag.context
  line := tag.line

namespace Node

mutual

/-- The tree with the default domains filled in, and the scope behind it. -/
def fillDomains (scope : DomainScope) : Node → Node × DomainScope
  | .text data line => (.text data line, (scope.enter (.text data line)).leave)
  | .print expr line =>
      let inner := scope.enter (.print expr line)
      (.print (expr.inScope inner) line, inner.leave)
  | .set name value line =>
      let inner := scope.enter (.set name value line)
      (.set name (value.inScope inner) line, inner.leave)
  | .body nodes line =>
      let inner := fillAll (scope.enter (.body nodes line)) nodes
      (.body inner.1 line, inner.2.leave)
  | .trans tag =>
      let inner := scope.enter (.trans tag)
      (.trans (tag.inScope inner), inner.leave)
  | .defaultDomain domain line =>
      let inner := scope.enter (.defaultDomain domain line)
      (.defaultDomain (domain.inScope inner) line, inner.leave)

def fillAll (scope : DomainScope) : List Node → List Node × DomainScope
  | [] => ([], scope)
  | node :: rest =>
      let first := fillDomains scope node
      let others := fillAll first.2 rest
      (first.1 :: others.1, others.2)

end

end Node

end TemplateMessages.Template

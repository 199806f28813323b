import TemplateMessages.Template.TransTag

/-!
# Template nodes

A template is a tree of nodes.  `Node.walk` lists what a visitor of the tree
meets, each node in front of its parts and the expressions of a node behind the
node itself.
-/

namespace TemplateMessages.Template

inductive Node where
  | text (data : String) (line : Nat)
  | print (expr : Expr) (line : Nat)
  | set (name : String) (value : Expr) (line : Nat)
  | body (nodes : List Node) (line : Nat)
  | trans (tag : TransTag)
  | defaultDomain (domain : Expr) (line : Nat)
deriving Repr, BEq, Inhabited

/-- What a walk over a tree meets. -/
inductive Step where
  | enter (node : Node)
  | visit (expr : Expr)
  | leave
deriving Repr

namespace Node

/-- A list of nodes as one node: a single node stands for itself. -/
def ofNodes (nodes : List Node) (line : Nat) : Node :=
  match nodes with
  | [node] => node
  | _ => .body nodes line

def line : Node → Nat
  | .text _ line => line
  | .print _ line => line
  | .set _ _ line => line
  | .body _ line => line
  | .trans tag => tag.line
  | .defaultDomain _ line => line

/-- The text of a node that is nothing but text: a text, or a print of a string
or number. -/
def literal? : Node → Option String
  | .text data _ => some data
  | .print (.constant (.string value)) _ => some value
  | .print (.constant (.number value)) _ => some value.text
  | _ => none

/-- The expressions that belong to a node itself. -/
def expressions : Node → List Expr
  | .text _ _ => []
  | .print expr _ => [expr]
  | .set _ value _ => [value]
  | .body _ _ => []
  | .trans tag => tag.expressions
  | .defaultDomain domain _ => [domain]

/-- The visits of expressions and all in them. -/
def visits (exprs : List Expr) : List Step :=
  (exprs.flatMap Expr.subterms).map .visit

mutual

def walk : Node → List Step
  | .body nodes line => .enter (.body nodes line) :: (walkAll nodes ++ [.leave])
  | .text data line => [.enter (.text data line), .leave]
  | .print expr line => .enter (.print expr line) :: (visits [expr] ++ [.leave])
  | .set name value line => .enter (.set name value line) :: (visits [value] ++ [.leave])
  | .trans tag => .enter (.trans tag) :: (visits tag.expressions ++ [.leave])
  | .defaultDomain domain line =>
      .enter (.defaultDomain domain line) :: (visits [domain] ++ [.leave])

def walkAll : List Node → List Step
  | [] => []
  | node :: rest => walk node ++ walkAll rest

end

end Node

end TemplateMessages.Template

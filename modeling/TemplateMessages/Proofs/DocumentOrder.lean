import TemplateMessages.Proofs.MessageLines

/-!
# Document order

The walk over a tree that has been read meets the messages in the order of their
lines.  A trans tag declares its message on its own line; what its count, its
mapping and its domain declare follows, as it does in the source.  The texts in
a trans tag declare nothing.
-/

namespace TemplateMessages.Template

namespace Node

/-- The lines of the messages of a tree, in the order of the walk. -/
def messageLines (node : Node) : List Nat :=
  (Message.ofNode node).map (·.line)

theorem filterMap_ofStep?_visits (exprs : List Expr) :
    (visits exprs).filterMap Message.ofStep? = exprs.flatMap Expr.messages := by
  rw [visits, List.filterMap_map, List.filterMap_flatMap]
  rfl

theorem filterMap_ofStep?_walkAll (nodes : List Node) :
    (walkAll nodes).filterMap Message.ofStep? = nodes.flatMap Message.ofNode := by
  induction nodes with
  | nil => rfl
  | cons node rest ih =>
      rw [walkAll, List.filterMap_append, ih, List.flatMap_cons, Message.ofNode]

/-- The messages of a node that holds no nodes: its own, and those in its expressions. -/
theorem filterMap_ofStep?_leaf (node : Node) (exprs : List Expr) :
    (Step.enter node :: (visits exprs ++ [Step.leave])).filterMap Message.ofStep? =
      (Message.ofStep? (.enter node)).toList ++ exprs.flatMap Expr.messages := by
  rw [List.filterMap_cons, List.filterMap_append, filterMap_ofStep?_visits]
  cases Message.ofStep? (.enter node) <;> simp [Message.ofStep?]

@[simp]
theorem messageLines_text (data : String) (line : Nat) : (text data line).messageLines = [] := rfl

@[simp]
theorem messageLines_print (expr : Expr) (line : Nat) :
    (print expr line).messageLines = expr.messageLines := by
  rw [messageLines, Message.ofNode, walk, filterMap_ofStep?_leaf]
  simp [Expr.messageLines, Message.ofStep?]

@[simp]
theorem messageLines_set (name : String) (value : Expr) (line : Nat) :
    (set name value line).messageLines = value.messageLines := by
  rw [messageLines, Message.ofNode, walk, filterMap_ofStep?_leaf]
  simp [Expr.messageLines, Message.ofStep?]

@[simp]
theorem messageLines_defaultDomain (domain : Expr) (line : Nat) :
    (defaultDomain domain line).messageLines = domain.messageLines := by
  rw [messageLines, Message.ofNode, walk, filterMap_ofStep?_leaf]
  simp [Expr.messageLines, Message.ofStep?]

@[simp]
theorem messageLines_trans (tag : TransTag) :
    (trans tag).messageLines = tag.line :: tag.expressions.flatMap Expr.messageLines := by
  rw [messageLines, Message.ofNode, walk, filterMap_ofStep?_leaf, List.map_append, List.map_flatMap]
  rfl

@[simp]
theorem messageLines_body (nodes : List Node) (line : Nat) :
    (body nodes line).messageLines = nodes.flatMap messageLines := by
  rw [messageLines, Message.ofNode, walk, List.filterMap_cons_none rfl, List.filterMap_append,
    filterMap_ofStep?_walkAll, List.map_append, List.map_flatMap]
  exact List.append_nil _

theorem messageLines_ofNodes (nodes : List Node) (line : Nat) :
    (ofNodes nodes line).messageLines = nodes.flatMap messageLines := by
  unfold ofNodes
  split <;> simp

/-! ## Readers -/

theorem reads_of_readClause {word : String} {stream rest : TokenStream} {expr : Option Expr}
    (hread : readClause word stream = .ok (expr, rest)) :
    Reads stream rest (expr.toList.flatMap Expr.messageLines) := by
  unfold readClause at hread
  split at hread
  case isTrue =>
    obtain ⟨⟨found, after⟩, hfound, hread⟩ := bind_eq_ok.mp hread
    obtain ⟨rfl, rfl⟩ := Prod.mk.inj (Except.ok.inj hread)
    rw [Option.toList_some, List.flatMap_singleton]
    exact (Reads.advance stream).skip (reads_of_parseExpression (reading_eq_ok.mp hfound))
  case isFalse =>
    obtain ⟨rfl, rfl⟩ := Prod.mk.inj (Except.ok.inj hread)
    exact .refl stream

theorem reads_of_readClauses {stream rest : TokenStream} {count vars domain : Option Expr}
    (hread : readClauses stream = .ok ((count, vars, domain), rest)) :
    Reads stream rest ((count.toList ++ vars.toList ++ domain.toList).flatMap Expr.messageLines) := by
  obtain ⟨⟨_, afterCount⟩, hcount, hread⟩ := bind_eq_ok.mp hread
  obtain ⟨⟨_, afterVars⟩, hvars, hread⟩ := bind_eq_ok.mp hread
  obtain ⟨⟨_, afterDomain⟩, hdomain, hread⟩ := bind_eq_ok.mp hread
  have hclauses := ((reads_of_readClause hcount).trans (reads_of_readClause hvars)).trans
    (reads_of_readClause hdomain)
  dsimp only at hread
  split at hread
  case isTrue => cases hread
  case isFalse =>
    split at hread
    case isTrue => cases hread
    case isFalse =>
      cases hread
      rw [List.flatMap_append, List.flatMap_append]
      exact hclauses.finish (.advance afterDomain)

/-- What a reader of nodes reads, with a bound on its recursion.  A tag is read behind its name,
whose line it takes. -/
structure ReadersReport (bound : Nat) : Prop where
  nodes : ∀ {tags : List BlockTag} {inside : Bool} {stream rest : TokenStream} {nodes : List Node},
    readNodes tags inside bound stream = .ok (nodes, rest) →
      Reads stream rest (nodes.flatMap messageLines)
  tag : ∀ {tags : List BlockTag} {tag : BlockTag} {start stream rest : TokenStream} {node : Node},
    readTag tags tag start.current.line bound stream = .ok (node, rest) →
      Reads start stream [] → Reads start rest node.messageLines
  sections : ∀ {tags : List BlockTag} {line : Nat} {before sections : Sections}
    {stream rest : TokenStream},
    readSections tags line before bound stream = .ok (sections, rest) → Reads stream rest []

variable {bound : Nat}

theorem ReadersReport.zero : ReadersReport 0 where
  nodes := by simp [readNodes]
  tag := by simp [readTag]
  sections := by simp [readSections]

namespace ReadersReport

theorem nodes_succ (hreports : ReadersReport bound) {tags : List BlockTag} {inside : Bool}
    {stream rest : TokenStream} {nodes : List Node}
    (hread : readNodes tags inside (bound + 1) stream = .ok (nodes, rest)) :
    Reads stream rest (nodes.flatMap messageLines) := by
  rw [readNodes] at hread
  dsimp only at hread
  split at hread
  case h_1 =>
    obtain ⟨⟨others, _⟩, hothers, hread⟩ := bind_eq_ok.mp hread
    obtain ⟨rfl, rfl⟩ := Prod.mk.inj (Except.ok.inj hread)
    rw [List.flatMap_cons, messageLines_text, List.nil_append]
    exact (Reads.advance stream).skip (hreports.nodes hothers)
  case h_2 =>
    obtain ⟨⟨expr, behind⟩, hexpr, hread⟩ := bind_eq_ok.mp hread
    obtain ⟨⟨_, after⟩, hend, hread⟩ := bind_eq_ok.mp hread
    obtain ⟨⟨others, _⟩, hothers, hread⟩ := bind_eq_ok.mp hread
    obtain ⟨rfl, rfl⟩ := Prod.mk.inj (Except.ok.inj hread)
    have hprint := ((Reads.advance stream).skip
      (reads_of_parseExpression (reading_eq_ok.mp hexpr))).finish
        (reads_of_expect (reading_eq_ok.mp hend))
    rw [List.flatMap_cons, messageLines_print]
    exact hprint.trans (hreports.nodes hothers)
  case h_3 =>
    split at hread
    case h_1 => cases hread
    case h_2 =>
      split at hread
      case isTrue =>
        obtain ⟨rfl, rfl⟩ := Prod.mk.inj (Except.ok.inj hread)
        exact .advance stream
      case isFalse =>
        split at hread
        case h_1 => cases hread
        case h_2 =>
          obtain ⟨⟨node, after⟩, htag, hread⟩ := bind_eq_ok.mp hread
          obtain ⟨⟨others, _⟩, hothers, hread⟩ := bind_eq_ok.mp hread
          obtain ⟨rfl, rfl⟩ := Prod.mk.inj (Except.ok.inj hread)
          have htag := (Reads.advance stream).skip (hreports.tag htag (.advance stream.advance))
          rw [List.flatMap_cons]
          exact htag.trans (hreports.nodes hothers)
  case h_4 =>
    split at hread
    case isTrue => cases hread
    case isFalse =>
      obtain ⟨rfl, rfl⟩ := Prod.mk.inj (Except.ok.inj hread)
      exact .refl stream
  case h_5 => cases hread

theorem tag_succ (hreports : ReadersReport bound) {tags : List BlockTag} {tag : BlockTag}
    {start stream rest : TokenStream} {node : Node}
    (hread : readTag tags tag start.current.line (bound + 1) stream = .ok (node, rest))
    (hstart : Reads start stream []) : Reads start rest node.messageLines := by
  cases tag with
  | set =>
      rw [readTag, reading_eq_ok] at hread
      obtain ⟨⟨_, afterName⟩, hname, hread⟩ := bind_eq_ok.mp hread
      obtain ⟨afterSign, hsign, hread⟩ := bind_eq_ok.mp hread
      obtain ⟨⟨value, afterValue⟩, hvalue, hread⟩ := bind_eq_ok.mp hread
      obtain ⟨⟨_, after⟩, hend, hread⟩ := bind_eq_ok.mp hread
      obtain ⟨rfl, rfl⟩ := Prod.mk.inj (Except.ok.inj hread)
      have hfront := (hstart.skip (reads_of_expectName hname)).skip (reads_of_expectPunct hsign)
      rw [messageLines_set]
      exact (hfront.skip (reads_of_parseExpression hvalue)).finish (reads_of_expect hend)
  | defaultDomain =>
      rw [readTag, reading_eq_ok] at hread
      obtain ⟨⟨domain, afterDomain⟩, hdomain, hread⟩ := bind_eq_ok.mp hread
      obtain ⟨⟨_, after⟩, hend, hread⟩ := bind_eq_ok.mp hread
      obtain ⟨rfl, rfl⟩ := Prod.mk.inj (Except.ok.inj hread)
      rw [messageLines_defaultDomain]
      exact (hstart.skip (reads_of_parseExpression hdomain)).finish (reads_of_expect hend)
  | trans =>
      rw [readTag] at hread
      obtain ⟨⟨⟨count, vars, domain⟩, afterClauses⟩, hclauses, hread⟩ := bind_eq_ok.mp hread
      obtain ⟨⟨nodes, afterNodes⟩, hnodes, hread⟩ := bind_eq_ok.mp hread
      dsimp only at hread
      split at hread
      case h_1 =>
        obtain ⟨⟨sections, afterSections⟩, hsections, hread⟩ := bind_eq_ok.mp hread
        obtain ⟨⟨_, after⟩, hend, hread⟩ := bind_eq_ok.mp hread
        obtain ⟨⟨message, plural⟩, _, hread⟩ := bind_eq_ok.mp hread
        obtain ⟨rfl, rfl⟩ := Prod.mk.inj (Except.ok.inj hread)
        have hexpressions := hstart.skip (reads_of_readClauses hclauses)
        -- The texts of the tag are passed, whatever is in them.
        have htexts := ((hreports.nodes hnodes).pass.skip (hreports.sections hsections)).skip
          ((Reads.advance afterSections).skip (reads_of_expect (reading_eq_ok.mp hend)))
        rw [messageLines_trans]
        exact (hexpressions.finish htexts).cons_line
      case h_2 => cases hread

theorem sections_succ (hreports : ReadersReport bound) {tags : List BlockTag} {line : Nat}
    {before sections : Sections} {stream rest : TokenStream}
    (hread : readSections tags line before (bound + 1) stream = .ok (sections, rest)) :
    Reads stream rest [] := by
  rw [readSections] at hread
  split at hread
  case isTrue =>
    obtain ⟨rfl, rfl⟩ := Prod.mk.inj (Except.ok.inj hread)
    exact .refl stream
  case isFalse =>
    split at hread
    case h_1 => cases hread
    case h_2 =>
      split at hread
      case isTrue => cases hread
      case isFalse =>
        obtain ⟨⟨_, afterName⟩, hname, hread⟩ := bind_eq_ok.mp hread
        obtain ⟨⟨nodes, afterNodes⟩, hnodes, hread⟩ := bind_eq_ok.mp hread
        dsimp only at hread
        split at hread
        case h_1 =>
          have hfront := (Reads.advance stream).skip (reads_of_expect (reading_eq_ok.mp hname))
          exact (hfront.skip (hreports.nodes hnodes).pass).skip (hreports.sections hread)
        case h_2 => cases hread

end ReadersReport

theorem readersReport (bound : Nat) : ReadersReport bound := by
  induction bound with
  | zero => exact .zero
  | succ bound ih =>
      exact { nodes := ih.nodes_succ, tag := ih.tag_succ, sections := ih.sections_succ }

/-- The messages of a tree that has been read are in the order of their lines. -/
theorem pairwise_messageLines_read {source : Source} {blocks : List BlockTag} {node : Node}
    (hread : source.read blocks = .ok node) : node.messageLines.Pairwise (· ≤ ·) := by
  unfold Source.read at hread
  split at hread
  case h_1 => cases hread
  case h_2 tokens htokens =>
    rw [mapError_eq_ok] at hread
    obtain ⟨⟨nodes, rest⟩, hnodes, hread⟩ := bind_eq_ok.mp hread
    cases hread
    have hreads := (readersReport _).nodes hnodes (ordered_ofTokens_tokenize htokens)
    rw [messageLines_ofNodes]
    exact (List.pairwise_cons.mp hreads.2.pairwise).2

end Node

end TemplateMessages.Template

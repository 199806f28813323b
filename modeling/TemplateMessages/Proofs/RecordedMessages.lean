import TemplateMessages.Proofs.AddedDomains
import TemplateMessages.Proofs.DocumentOrder

/-!
# What the recorder holds of a template

While the recorder is on, a template leaves one message for each trans tag and
one for each `trans` filter on a string constant, wherever they stand in the tree
with its default domains filled in, and no other.  They come in the order of
their positions.  A domain that is put in declares its messages once more where
it is put; when no default domain holds a `trans` filter, filling in leaves the
lines of the messages as the reader has ordered them.
-/

namespace TemplateMessages.Template

/-! ## Declarations -/

/-- The messages that a part declares itself, apart from what is in it. -/
inductive Part.Declares : Part → Message → Prop
  | tag (tag : TransTag) : Declares (.ofNode (.trans tag)) (Message.ofTag tag)
  | filter (original : String) (arguments : List (Argument Expr)) (line : Nat) :
      Declares (.ofExpr (.filter (.string original) TransTag.filterName arguments line))
        { original := original
          line := line
          plural := (findArgument arguments "plural").bind Expr.stringConstant?
          domain := (findArgument arguments "domain").map MessageDomain.ofExpr
          notes := none
          context := (findArgument arguments "context").bind Expr.stringConstant? }

/-- Messages with their positions: one for each part that declares one, in the order of the
positions. -/
structure Part.Records (part : Part) (recorded : List (Position × Message)) : Prop where
  ascending : (recorded.map Prod.fst).Pairwise (· < ·)
  mem_iff : ∀ position message, (position, message) ∈ recorded ↔
    ∃ found, part.at? position = some found ∧ found.Declares message

namespace Part

/-- The message that a part declares, if it declares one. -/
def message? : Part → Option Message
  | .ofNode (.trans tag) => some (Message.ofTag tag)
  | .ofNode _ => none
  | .ofExpr expr => Message.ofExpr? expr

theorem declares_iff {part : Part} {message : Message} :
    part.Declares message ↔ part.message? = some message := by
  constructor
  · rintro (tag | ⟨original, arguments, line⟩) <;> rfl
  · intro hmessage
    match part with
    | .ofNode (.trans tag) =>
        obtain rfl : Message.ofTag tag = message := Option.some.inj hmessage
        exact .tag tag
    | .ofExpr (.filter subject word arguments line) =>
        simp only [message?, Message.ofExpr?] at hmessage
        split at hmessage
        case isTrue hword =>
          obtain ⟨original, horiginal, rfl⟩ := Option.map_eq_some_iff.mp hmessage
          rw [hword, Expr.eq_string_of_stringConstant? horiginal]
          exact .filter original arguments line
        case isFalse => cases hmessage

/-- A part declares at most one message. -/
theorem Declares.unique {part : Part} {message other : Message} (hmessage : part.Declares message)
    (hother : part.Declares other) : message = other := by
  rw [declares_iff] at hmessage hother
  exact Option.some.inj (hmessage.symm.trans hother)

theorem ofNode_eq_filterMap_walk (node : Node) :
    Message.ofNode node = (ofNode node).walk.filterMap message? := by
  have hstep : ∀ step : Step, Message.ofStep? step = step.part?.bind message? := by
    intro step
    match step with
    | .enter (.trans _) => rfl
    | .enter (.text _ _) => rfl
    | .enter (.print _ _) => rfl
    | .enter (.set _ _ _) => rfl
    | .enter (.body _ _) => rfl
    | .enter (.defaultDomain _ _) => rfl
    | .visit _ => rfl
    | .leave => rfl
  rw [Message.ofNode, walk, List.filterMap_filterMap]
  exact List.filterMap_congr fun step _ => hstep step

/-- Of a listing of all parts the messages are kept, with their positions. -/
theorem Listing.records {part : Part} {entries : List (Position × Part)} (hlisting : part.Listing entries) :
    part.Records (entries.filterMap fun entry => entry.2.message?.map fun message => (entry.1, message)) where
  ascending := by
    have hascending := List.pairwise_map.mp hlisting.ascending
    rw [List.pairwise_map, List.pairwise_filterMap]
    refine hascending.imp fun hlt left hleft right hright => ?_
    obtain ⟨_, -, rfl⟩ := Option.map_eq_some_iff.mp hleft
    obtain ⟨_, -, rfl⟩ := Option.map_eq_some_iff.mp hright
    exact hlt
  mem_iff := by
    intro position message
    rw [List.mem_filterMap]
    constructor
    · rintro ⟨⟨here, found⟩, hmem, hrecorded⟩
      obtain ⟨declared, hdeclared, heq⟩ := Option.map_eq_some_iff.mp hrecorded
      obtain ⟨rfl, rfl⟩ := Prod.mk.inj heq
      exact ⟨found, (hlisting.mem_iff here found).mp hmem, declares_iff.mpr hdeclared⟩
    · rintro ⟨found, hat, hdeclares⟩
      refine ⟨(position, found), (hlisting.mem_iff position found).mpr hat, ?_⟩
      rw [declares_iff.mp hdeclares, Option.map_some]

/-- The messages of a tree are those that its parts declare, one after the other. -/
theorem exists_records (node : Node) :
    ∃ recorded, (ofNode node).Records recorded ∧ Message.ofNode node = recorded.map Prod.snd := by
  obtain ⟨entries, hlisting, hwalk⟩ := exists_listing (ofNode node)
  refine ⟨_, hlisting.records, ?_⟩
  rw [ofNode_eq_filterMap_walk, ← hwalk, List.filterMap_map, List.map_filterMap]
  simp [Function.comp_def]

end Part

/-! ## Lines -/

namespace Expr

/-- A `trans` filter, with a domain or without. -/
def isTransFilter : Expr → Bool
  | .filter _ word _ _ => word == TransTag.filterName
  | _ => false

/-- No `trans` filter is in the expression. -/
def TransFree (expr : Expr) : Prop :=
  ∀ inner ∈ expr.subterms, inner.isTransFilter = false

instance (expr : Expr) : Decidable expr.TransFree :=
  inferInstanceAs (Decidable (∀ inner ∈ expr.subterms, inner.isTransFilter = false))

theorem ofExpr?_of_not_isTransFilter {expr : Expr} (hnone : expr.isTransFilter = false) :
    Message.ofExpr? expr = none := by
  cases expr with
  | filter subject word arguments line =>
      have hword : word ≠ TransTag.filterName := beq_eq_false_iff_ne.mp hnone
      rw [Message.ofExpr?, if_neg hword]
  | _ => rfl

theorem TransFree.messageLines_eq {expr : Expr} (hfree : expr.TransFree) : expr.messageLines = [] := by
  have hmessages : expr.messages = [] := by
    rw [messages, List.filterMap_eq_nil_iff]
    intro inner hinner
    exact ofExpr?_of_not_isTransFilter (hfree inner hinner)
  rw [messageLines, hmessages, List.map_nil]

theorem TransFree.namesDomains {expr : Expr} (hfree : expr.TransFree) : expr.NamesDomains := by
  intro inner hinner
  have hnone := hfree inner hinner
  cases inner with
  | filter subject word arguments line =>
      have hword : (word == TransTag.filterName) = false := hnone
      rw [lacksDomain, hword, Bool.false_and]
  | _ => rfl

/-- A constant stays one, and nothing else becomes one. -/
theorem stringConstant?_inScope (scope : DomainScope) (expr : Expr) :
    (expr.inScope scope).stringConstant? = expr.stringConstant? := by
  unfold inScope
  split
  case h_1 domain _ => cases expr <;> rfl
  case h_2 => rfl

end Expr

/-- A scope whose domain holds no `trans` filter. -/
def DomainScope.TransFree (scope : DomainScope) : Prop :=
  ∀ domain, scope.domain = some domain → domain.TransFree

/-- No default domain holds a `trans` filter. -/
def Node.PlainDomains (node : Node) : Prop :=
  ∀ domain ∈ node.defaultDomains, domain.TransFree

instance (node : Node) : Decidable node.PlainDomains :=
  inferInstanceAs (Decidable (∀ domain ∈ node.defaultDomains, domain.TransFree))

namespace DomainScope.TransFree

variable {scope : DomainScope}

theorem namesDomains (hfree : scope.TransFree) : scope.NamesDomains :=
  fun domain hdomain => (hfree domain hdomain).namesDomains

theorem enter (hfree : scope.TransFree) {node : Node} (hnode : node.PlainDomains) :
    (scope.enter node).TransFree :=
  forall_domain_enter hfree hnode

theorem fillDomains (hfree : scope.TransFree) {node : Node} (hnode : node.PlainDomains) :
    (node.fillDomains scope).2.TransFree :=
  Node.forall_domain_fillDomains hfree hnode

end DomainScope.TransFree

namespace Expr

/-- An expression declares its own message on the line where it has declared it. -/
theorem line_ofExpr?_inScope {scope : DomainScope} (hfree : scope.TransFree) (expr : Expr) :
    (Message.ofExpr? (expr.inScope scope)).toList.map (·.line) =
      (Message.ofExpr? expr).toList.map (·.line) := by
  rw [inScope_eq_mapParts hfree.namesDomains]
  cases expr with
  | filter subject word arguments line =>
      simp only [entered, mapParts, Message.ofExpr?, stringConstant?_inScope]
      split
      case isTrue => cases subject.stringConstant? <;> rfl
      case isFalse => rfl
  | _ => rfl

/-- What is put behind expressions declares nothing. -/
theorem flatMap_messageLines_append {scope : DomainScope} (hfree : scope.TransFree)
    {exprs added : List Expr}
    (hexprs : ∀ expr ∈ exprs, (expr.inScope scope).messageLines = expr.messageLines)
    (hadded : ∀ expr ∈ added, expr = .array [] ∨ scope.domain = some expr) :
    (exprs.map (inScope scope) ++ added).flatMap messageLines = exprs.flatMap messageLines := by
  have hsilent : added.flatMap messageLines = [] := by
    rw [List.flatMap_eq_nil_iff]
    intro expr hexpr
    rcases hadded expr hexpr with rfl | hdomain
    · rfl
    · exact (hfree expr hdomain).messageLines_eq
  rw [List.flatMap_append, hsilent, List.append_nil, List.flatMap_map]
  exact List.flatMap_congr hexprs

theorem messageLines_inScope {scope : DomainScope} (hfree : scope.TransFree) (expr : Expr) :
    (expr.inScope scope).messageLines = expr.messageLines := by
  induction expr using induction_on_parts with
  | hstep expr ih =>
      obtain ⟨added, -, hparts, hadded⟩ := exists_parts_inScope_eq hfree.namesDomains expr
      rw [messageLines_eq, messageLines_eq expr, hparts, flatMap_messageLines_append hfree ih hadded,
        line_ofExpr?_inScope hfree]

end Expr

namespace Node

theorem PlainDomains.namesDomains {node : Node} (hplain : node.PlainDomains) : node.NamesDomains :=
  fun domain hdomain => (hplain domain hdomain).namesDomains

mutual

/-- Filling in domains that hold no `trans` filter leaves the lines of the messages as they are. -/
theorem messageLines_fillDomains {scope : DomainScope} (hfree : scope.TransFree) {node : Node}
    (hplain : node.PlainDomains) : (node.fillDomains scope).1.messageLines = node.messageLines := by
  have hinner := hfree.enter hplain
  cases node with
  | text data line => rfl
  | print expr line =>
      rw [fillDomains, messageLines_print, messageLines_print, Expr.messageLines_inScope hinner]
  | set name value line =>
      rw [fillDomains, messageLines_set, messageLines_set, Expr.messageLines_inScope hinner]
  | body nodes line =>
      rw [fillDomains, messageLines_body, messageLines_body]
      exact messageLines_fillAll hinner fun node hmem domain hdomain =>
        hplain domain (mem_defaultDomains_body hmem hdomain)
  | trans tag =>
      obtain ⟨added, -, hexprs, hadded⟩ :=
        exists_expressions_fillDomains_eq hfree.namesDomains hplain.namesDomains
      have hlines : ((trans tag).fillDomains scope).1.expressions.flatMap Expr.messageLines =
          tag.expressions.flatMap Expr.messageLines := by
        rw [hexprs]
        apply Expr.flatMap_messageLines_append hinner
        · exact fun expr _ => Expr.messageLines_inScope hinner expr
        · exact fun expr hexpr => .inr (hadded expr hexpr)
      rw [messageLines_trans, ← hlines]
      exact messageLines_trans _
  | defaultDomain domain line =>
      rw [fillDomains, messageLines_defaultDomain, messageLines_defaultDomain,
        Expr.messageLines_inScope hinner]

theorem messageLines_fillAll {scope : DomainScope} (hfree : scope.TransFree) {nodes : List Node}
    (hplain : ∀ node ∈ nodes, node.PlainDomains) :
    (fillAll scope nodes).1.flatMap messageLines = nodes.flatMap messageLines := by
  cases nodes with
  | nil => rfl
  | cons node rest =>
      obtain ⟨hnode, hrest⟩ := List.forall_mem_cons.mp hplain
      have hfirst := messageLines_fillDomains hfree hnode
      have hothers := messageLines_fillAll (hfree.fillDomains hnode) hrest
      rw [fillAll, List.flatMap_cons, List.flatMap_cons, hfirst, hothers]

end

/-- The messages of an outermost tree that has been read are in the order of their lines, with the
default domains filled in as before. -/
theorem pairwise_lines_fillDomains {source : Source} {written : Node}
    (hread : source.read allTags = .ok written) (hplain : written.PlainDomains) {scope : DomainScope}
    (hdepth : scope.depth = 0) : (written.fillDomains scope).1.messageLines.Pairwise (· ≤ ·) := by
  have hfree : DomainScope.outermost.TransFree := by
    intro domain hdomain
    cases hdomain
  rw [fillDomains_of_depth_eq_zero hdepth, messageLines_fillDomains hfree hplain]
  exact pairwise_messageLines_read hread

end Node

/-! ## Sessions -/

namespace Session

theorem parse_eq_of_read {source : Source} {written : Node} (hread : source.read allTags = .ok written)
    (session : Session) :
    session.parse source = (.ok (written.fillDomains session.scope).1,
      ⟨session.catalog, (written.fillDomains session.scope).2,
        session.recorder.observe (written.fillDomains session.scope).1⟩) := by
  rw [parse, hread]

/-- With the recorder on, a template leaves one message for each part of its filled tree that
declares one, in the order of the positions, whatever requests the session has served before.  The
lines of the messages are in order when no default domain holds a `trans` filter. -/
theorem records_messages (catalog : Gettext.Catalog) (history : List Action) {source : Source}
    {written : Node} (hread : source.read allTags = .ok written) (hnames : written.NamesDomains) :
    ∃ (node : Node) (session : Session) (recorded : List (Position × Message)),
      ((start catalog).after history).enable.parse source = (.ok node, session) ∧
      (∀ bound, sizeOf node ≤ bound →
        written.visit bound ((start catalog).after history).scope = some (node, session.scope)) ∧
      (Part.ofNode node).Records recorded ∧
      session.recorder.messages = recorded.map Prod.snd ∧
      (written.PlainDomains → (session.recorder.messages.map (·.line)).Pairwise (· ≤ ·)) := by
  have hsettled : ((start catalog).after history).Settled :=
    settled_after (settled_start catalog) history
  have hdepth := hsettled.outermost
  have hparse := parse_eq_of_read hread ((start catalog).after history).enable
  obtain ⟨recorded, hrecords, hmessages⟩ :=
    Part.exists_records (written.fillDomains ((start catalog).after history).scope).1
  refine ⟨_, _, recorded, hparse, ?_, hrecords, hmessages, ?_⟩
  · intro bound hbound
    exact Node.visit_eq_some_of_depth_eq_zero hnames hdepth hbound
  · intro hplain
    exact Node.pairwise_lines_fillDomains hread hplain hdepth

/-- A template with a message in an array and one in the mapping of a tag.  The count of the tag has
no constant to translate. -/
def sourceOfShop : Source where
  code := "\x7b% trans_default_domain 'shop' %\x7d\n\x7b% set x = ['a'|trans] %\x7d\n" ++
    "\x7b% trans count n|trans with \x7b'%p%': 'b'|trans\x7d %\x7dc|d\x7b% endtrans %\x7d"
  name := none

theorem exists_ok_of_any {ε α : Type} {outcome : Except ε α} {test : α → Bool}
    (htest : outcome.toOption.any test = true) : ∃ value, outcome = .ok value ∧ test value = true := by
  cases outcome with
  | ok value => exact ⟨value, rfl, htest⟩
  | error error => cases htest

theorem records_messages_sourceOfShop :
    ∃ (written node : Node) (session : Session) (recorded : List (Position × Message)),
      sourceOfShop.read allTags = .ok written ∧ written.NamesDomains ∧
      ((start (.empty "en")).after [.parse sourceOfShop]).enable.parse sourceOfShop =
        (.ok node, session) ∧
      (Part.ofNode node).Records recorded ∧
      session.recorder.messages = recorded.map Prod.snd ∧
      (session.recorder.messages.map (·.line)).Pairwise (· ≤ ·) ∧
      session.recorder.messages.map (fun message => (message.original, message.line)) =
        [("a", 2), ("c", 3), ("b", 3)] := by
  have hread : (sourceOfShop.read allTags).toOption.any
      (fun written => decide written.NamesDomains && decide written.PlainDomains) = true := by
    decide +kernel
  have hrecorder : (((start (.empty "en")).after [.parse sourceOfShop]).enable.parse
      sourceOfShop).2.recorder.messages.map (fun message => (message.original, message.line)) =
        [("a", 2), ("c", 3), ("b", 3)] := by
    decide +kernel
  obtain ⟨written, hread, htest⟩ := exists_ok_of_any hread
  simp only [Bool.and_eq_true, decide_eq_true_eq] at htest
  obtain ⟨node, session, recorded, hparse, -, hrecords, hmessages, hlines⟩ :=
    records_messages (.empty "en") [.parse sourceOfShop] hread htest.1
  rw [hparse] at hrecorder
  exact ⟨written, node, session, recorded, hread, htest.1, hparse, hrecords, hmessages,
    hlines htest.2, hrecorder⟩

end Session

end TemplateMessages.Template

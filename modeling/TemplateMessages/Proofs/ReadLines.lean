import TemplateMessages.Proofs.LineBounds
import TemplateMessages.Proofs.Positions
import TemplateMessages.Template.Source

/-!
# The lines of what is read

A reader takes every line from a token of its stream: the line of a node or of a
filter from one that it passes, that of a fault from one at which it stops or
from the tag around it.  So a stream whose tokens are on lines of one kind
yields parts and faults on such lines, and leaves a stream of the same kind.
-/

namespace TemplateMessages.Template

variable {lines : Nat → Prop}

/-! ## Parts -/

/-- The line that an expression carries: only a filter does. -/
def Expr.line? : Expr → Option Nat
  | .filter _ _ _ line => some line
  | _ => none

/-- The line that a part carries. -/
def Part.line? : Part → Option Nat
  | .ofNode node => some node.line
  | .ofExpr expr => expr.line?

/-- Every line in the part is one of the lines. -/
inductive Part.Within (lines : Nat → Prop) : Part → Prop
  | intro {part : Part} (hline : ∀ line ∈ part.line?, lines line)
      (hparts : ∀ inner ∈ part.parts, Within lines inner) : Within lines part

namespace Part.Within

variable {part inner : Part}

theorem line (hpart : part.Within lines) : ∀ line ∈ part.line?, lines line := by
  cases hpart with
  | intro hline _ => exact hline

theorem of_mem_parts (hpart : part.Within lines) (hinner : inner ∈ part.parts) : inner.Within lines := by
  cases hpart with
  | intro _ hparts => exact hparts inner hinner

/-- What the walk over a part meets is in the part. -/
theorem of_mem_walk (hpart : part.Within lines) (hinner : inner ∈ part.walk) : inner.Within lines := by
  induction hpart with
  | @intro part hline hparts ih =>
      rw [walk_eq] at hinner
      rcases List.mem_cons.mp hinner with rfl | hinner
      · exact .intro hline hparts
      · obtain ⟨among, hamong, hinner⟩ := List.mem_flatMap.mp hinner
        exact ih among hamong hinner

end Part.Within

/-- Every line in the expression is one of the lines. -/
def Expr.Within (lines : Nat → Prop) (expr : Expr) : Prop :=
  (Part.ofExpr expr).Within lines

/-- Every line in the tree is one of the lines. -/
def Node.Within (lines : Nat → Prop) (node : Node) : Prop :=
  (Part.ofNode node).Within lines

namespace Expr

theorem within_iff {expr : Expr} :
    expr.Within lines ↔ (∀ line ∈ expr.line?, lines line) ∧ ∀ part ∈ expr.parts, part.Within lines := by
  constructor
  · intro hexpr
    exact ⟨hexpr.line, fun part hpart => hexpr.of_mem_parts (List.mem_map_of_mem hpart)⟩
  · rintro ⟨hline, hparts⟩
    refine .intro hline fun inner hinner => ?_
    obtain ⟨part, hpart, rfl⟩ := List.mem_map.mp hinner
    exact hparts part hpart

theorem within_constant (value : Value) : (constant value).Within lines :=
  within_iff.mpr ⟨nofun, nofun⟩

theorem within_ofWord (word : String) : (ofWord word).Within lines := by
  unfold ofWord
  split
  case h_5 => exact within_iff.mpr ⟨nofun, nofun⟩
  all_goals exact within_constant _

theorem within_array {items : List Expr} (hitems : ∀ item ∈ items, item.Within lines) :
    (array items).Within lines :=
  within_iff.mpr ⟨nofun, hitems⟩

theorem within_map {entries : List (Expr × Expr)}
    (hentries : ∀ entry ∈ entries, entry.1.Within lines ∧ entry.2.Within lines) :
    (map entries).Within lines := by
  refine within_iff.mpr ⟨nofun, fun part hpart => ?_⟩
  obtain ⟨entry, hentry, hpart⟩ := List.mem_flatMap.mp hpart
  simp only [List.mem_cons, List.not_mem_nil, or_false] at hpart
  rcases hpart with rfl | rfl
  · exact (hentries entry hentry).1
  · exact (hentries entry hentry).2

theorem within_filter {subject : Expr} {word : String} {arguments : List (Argument Expr)} {line : Nat}
    (hline : lines line) (hsubject : subject.Within lines)
    (harguments : ∀ argument ∈ arguments, argument.value.Within lines) :
    (filter subject word arguments line).Within lines := by
  refine within_iff.mpr ⟨?_, List.forall_mem_cons.mpr ⟨hsubject, ?_⟩⟩
  · rintro _ ⟨⟩
    exact hline
  · exact List.forall_mem_map.mpr harguments

end Expr

namespace Node

theorem within_body_iff {nodes : List Node} {line : Nat} :
    (body nodes line).Within lines ↔ lines line ∧ ∀ node ∈ nodes, node.Within lines := by
  constructor
  · intro hbody
    exact ⟨hbody.line line rfl, fun node hnode => hbody.of_mem_parts (List.mem_map_of_mem hnode)⟩
  · rintro ⟨hline, hnodes⟩
    refine .intro ?_ fun inner hinner => ?_
    · rintro _ ⟨⟩
      exact hline
    · obtain ⟨node, hnode, rfl⟩ := List.mem_map.mp hinner
      exact hnodes node hnode

/-- A node that holds no nodes: its own line, and those in its expressions. -/
theorem within_leaf_iff {node : Node} (hleaf : (Part.ofNode node).parts = node.expressions.map .ofExpr) :
    node.Within lines ↔ lines node.line ∧ ∀ expr ∈ node.expressions, expr.Within lines := by
  constructor
  · intro hnode
    refine ⟨hnode.line _ rfl, fun expr hexpr => hnode.of_mem_parts ?_⟩
    rw [hleaf]
    exact List.mem_map_of_mem hexpr
  · rintro ⟨hline, hexprs⟩
    refine .intro ?_ ?_
    · rintro _ ⟨⟩
      exact hline
    · rw [hleaf]
      exact List.forall_mem_map.mpr hexprs

theorem within_ofNodes {nodes : List Node} {line : Nat} (hnodes : ∀ node ∈ nodes, node.Within lines)
    (hline : lines line) : (ofNodes nodes line).Within lines := by
  unfold ofNodes
  split
  case h_1 node => exact hnodes node List.mem_cons_self
  case h_2 => exact within_body_iff.mpr ⟨hline, hnodes⟩

end Node

/-! ## Readers -/

section Read

variable {ε α β : Type}

/-- A reader keeps to the lines: its fault is on one, or what it has read carries no other and
neither do the tokens behind it. -/
abbrev Keeps (faulty : ε → Prop) (lines : Nat → Prop) (carries : α → Prop)
    (result : Except ε (α × TokenStream)) : Prop :=
  Ensures faulty (fun read => carries read.1 ∧ read.2.Within lines) result

theorem Keeps.bind {faulty : ε → Prop} {carries : α → Prop} {sound : β → Prop}
    {result : Except ε (α × TokenStream)} {next : α × TokenStream → Except ε β}
    (hresult : Keeps faulty lines carries result)
    (hnext : ∀ (value : α) {rest : TokenStream}, carries value → rest.Within lines →
      Ensures faulty sound (next (value, rest))) : Ensures faulty sound (result >>= next) :=
  Ensures.bind hresult fun _ hread => hnext _ hread.1 hread.2

end Read

namespace Expr

/-- The readers of expressions keep to the lines, with a bound on their recursion. -/
structure ReadersKeep (lines : Nat → Prop) (bound : Nat) : Prop where
  expression : ∀ {stream : TokenStream}, stream.Within lines →
    Keeps (SyntaxError.Within lines) lines (Within lines) (readExpression bound stream)
  filters : ∀ {stream : TokenStream} {subject : Expr}, stream.Within lines → subject.Within lines →
    Keeps (SyntaxError.Within lines) lines (Within lines) (readFilters bound subject stream)
  primary : ∀ {stream : TokenStream}, stream.Within lines →
    Keeps (SyntaxError.Within lines) lines (Within lines) (readPrimary bound stream)
  items : ∀ {stream : TokenStream}, stream.Within lines →
    Keeps (SyntaxError.Within lines) lines (fun items => ∀ item ∈ items, item.Within lines)
      (readItems bound stream)
  entries : ∀ {stream : TokenStream}, stream.Within lines →
    Keeps (SyntaxError.Within lines) lines
      (fun entries => ∀ entry ∈ entries, entry.1.Within lines ∧ entry.2.Within lines)
      (readEntries bound stream)
  key : ∀ {stream : TokenStream}, stream.Within lines →
    Keeps (SyntaxError.Within lines) lines (Within lines) (readKey bound stream)
  arguments : ∀ {stream : TokenStream}, stream.Within lines →
    Keeps (SyntaxError.Within lines) lines
      (fun arguments => ∀ argument ∈ arguments, argument.value.Within lines)
      (readArguments bound stream)
  argumentList : ∀ {stream : TokenStream}, stream.Within lines →
    Keeps (SyntaxError.Within lines) lines
      (fun arguments => ∀ argument ∈ arguments, argument.value.Within lines)
      (readArgumentList bound stream)

variable {bound : Nat}

/-- A reader that is given no depth refuses the token at which it stands. -/
theorem ReadersKeep.zero : ReadersKeep lines 0 where
  expression := fun hstream => .error hstream.unexpected
  filters := fun hstream _ => .error hstream.unexpected
  primary := fun hstream => .error hstream.unexpected
  items := fun hstream => .error hstream.unexpected
  entries := fun hstream => .error hstream.unexpected
  key := fun hstream => .error hstream.unexpected
  arguments := fun hstream => .error hstream.unexpected
  argumentList := fun hstream => .error hstream.unexpected

namespace ReadersKeep

variable {stream : TokenStream}

theorem expression_succ (hkeep : ReadersKeep lines bound) (hstream : stream.Within lines) :
    Keeps (SyntaxError.Within lines) lines (Within lines) (readExpression (bound + 1) stream) := by
  rw [readExpression]
  refine Keeps.bind (hkeep.primary hstream) fun subject _ hsubject hrest => ?_
  exact hkeep.filters hrest hsubject

theorem filters_succ (hkeep : ReadersKeep lines bound) {subject : Expr}
    (hstream : stream.Within lines) (hsubject : subject.Within lines) :
    Keeps (SyntaxError.Within lines) lines (Within lines) (readFilters (bound + 1) subject stream) := by
  rw [readFilters]
  split
  case isFalse => exact .ok ⟨hsubject, hstream⟩
  case isTrue =>
    refine hstream.advance.expectName.bind fun ⟨word, afterName⟩ hafterName => ?_
    have hfilters : ∀ (arguments : List (Argument Expr)) {rest : TokenStream},
        (∀ argument ∈ arguments, argument.value.Within lines) → rest.Within lines →
          Keeps (SyntaxError.Within lines) lines (Within lines)
            (readFilters bound (.filter subject word arguments stream.current.line) rest) :=
      fun _ _ harguments hrest =>
        hkeep.filters hrest (within_filter hstream.current hsubject harguments)
    dsimp only
    split
    case isTrue => exact Keeps.bind (hkeep.arguments hafterName.advance) hfilters
    case isFalse => exact hfilters [] nofun hafterName

theorem primary_succ (hkeep : ReadersKeep lines bound) (hstream : stream.Within lines) :
    Keeps (SyntaxError.Within lines) lines (Within lines) (readPrimary (bound + 1) stream) := by
  rw [readPrimary]
  split
  case h_1 => exact .ok ⟨within_ofWord _, hstream.advance⟩
  case h_2 => exact .ok ⟨within_constant _, hstream.advance⟩
  case h_3 => exact .ok ⟨within_constant _, hstream.advance⟩
  case h_4 =>
    refine Keeps.bind (hkeep.items hstream.advance) fun items _ hitems hrest => ?_
    exact .ok ⟨within_array hitems, hrest⟩
  case h_5 =>
    refine Keeps.bind (hkeep.entries hstream.advance) fun entries _ hentries hrest => ?_
    exact .ok ⟨within_map hentries, hrest⟩
  case h_6 =>
    refine Keeps.bind (hkeep.expression hstream.advance) fun inner _ hinner hafter => ?_
    refine (hafter.expectPunct ')').bind fun rest hrest => ?_
    exact .ok ⟨hinner, hrest⟩
  case h_7 => exact .error hstream.unexpected

theorem items_succ (hkeep : ReadersKeep lines bound) (hstream : stream.Within lines) :
    Keeps (SyntaxError.Within lines) lines (fun items => ∀ item ∈ items, item.Within lines)
      (readItems (bound + 1) stream) := by
  rw [readItems]
  split
  case isTrue => exact .ok ⟨nofun, hstream.advance⟩
  case isFalse =>
    refine Keeps.bind (hkeep.expression hstream) fun item _ hitem hafter => ?_
    dsimp only
    split
    case isTrue => exact .ok ⟨List.forall_mem_singleton.mpr hitem, hafter.advance⟩
    case isFalse =>
      refine (hafter.expectPunct ',').bind fun behind hbehind => ?_
      refine Keeps.bind (hkeep.items hbehind) fun items _ hitems hrest => ?_
      exact .ok ⟨List.forall_mem_cons.mpr ⟨hitem, hitems⟩, hrest⟩

theorem entries_succ (hkeep : ReadersKeep lines bound) (hstream : stream.Within lines) :
    Keeps (SyntaxError.Within lines) lines
      (fun entries => ∀ entry ∈ entries, entry.1.Within lines ∧ entry.2.Within lines)
      (readEntries (bound + 1) stream) := by
  rw [readEntries]
  split
  case isTrue => exact .ok ⟨nofun, hstream.advance⟩
  case isFalse =>
    refine Keeps.bind (hkeep.key hstream) fun key _ hkey hafterKey => ?_
    refine (hafterKey.expectPunct ':').bind fun afterSign hafterSign => ?_
    refine Keeps.bind (hkeep.expression hafterSign) fun value _ hvalue hafter => ?_
    dsimp only
    split
    case isTrue => exact .ok ⟨List.forall_mem_singleton.mpr ⟨hkey, hvalue⟩, hafter.advance⟩
    case isFalse =>
      refine (hafter.expectPunct ',').bind fun behind hbehind => ?_
      refine Keeps.bind (hkeep.entries hbehind) fun entries _ hentries hrest => ?_
      exact .ok ⟨List.forall_mem_cons.mpr ⟨⟨hkey, hvalue⟩, hentries⟩, hrest⟩

theorem key_succ (hkeep : ReadersKeep lines bound) (hstream : stream.Within lines) :
    Keeps (SyntaxError.Within lines) lines (Within lines) (readKey (bound + 1) stream) := by
  rw [readKey]
  split
  case h_4 =>
    refine Keeps.bind (hkeep.expression hstream.advance) fun key _ hkey hafter => ?_
    refine (hafter.expectPunct ')').bind fun rest hrest => ?_
    exact .ok ⟨hkey, hrest⟩
  case h_5 => exact .error (hstream.refuse _)
  all_goals exact .ok ⟨within_constant _, hstream.advance⟩

theorem arguments_succ (hkeep : ReadersKeep lines bound) (hstream : stream.Within lines) :
    Keeps (SyntaxError.Within lines) lines
      (fun arguments => ∀ argument ∈ arguments, argument.value.Within lines)
      (readArguments (bound + 1) stream) := by
  rw [readArguments]
  split
  case isTrue => exact .ok ⟨nofun, hstream.advance⟩
  case isFalse => exact hkeep.argumentList hstream

theorem argumentList_succ (hkeep : ReadersKeep lines bound) (hstream : stream.Within lines) :
    Keeps (SyntaxError.Within lines) lines
      (fun arguments => ∀ argument ∈ arguments, argument.value.Within lines)
      (readArgumentList (bound + 1) stream) := by
  have hlabel : ∀ named : Bool,
      (if named then stream.advance.advance else stream).Within lines := by
    intro named
    cases named with
    | true => exact hstream.advance.advance
    | false => exact hstream
  rw [readArgumentList]
  refine Keeps.bind (hkeep.expression (hlabel _)) fun value _ hvalue hafter => ?_
  dsimp only
  split
  case isTrue => exact .ok ⟨List.forall_mem_singleton.mpr hvalue, hafter.advance⟩
  case isFalse =>
    refine (hafter.expectPunct ',').bind fun behind hbehind => ?_
    refine Keeps.bind (hkeep.argumentList hbehind) fun arguments _ harguments hrest => ?_
    exact .ok ⟨List.forall_mem_cons.mpr ⟨hvalue, harguments⟩, hrest⟩

end ReadersKeep

theorem readersKeep (bound : Nat) : ReadersKeep lines bound := by
  induction bound with
  | zero => exact .zero
  | succ bound ih =>
      exact {
        expression := ih.expression_succ
        filters := ih.filters_succ
        primary := ih.primary_succ
        items := ih.items_succ
        entries := ih.entries_succ
        key := ih.key_succ
        arguments := ih.arguments_succ
        argumentList := ih.argumentList_succ }

end Expr

theorem keeps_parseExpression {stream : TokenStream} (hstream : stream.Within lines) :
    Keeps (SyntaxError.Within lines) lines (Expr.Within lines) (parseExpression stream) :=
  (Expr.readersKeep _).expression hstream

/-- An error on one of the lines, if it is one of syntax. -/
def TemplateError.Within (lines : Nat → Prop) : TemplateError → Prop
  | .malformed error => error.Within lines
  | _ => True

theorem Ensures.reading {α : Type} {sound : α → Prop} {result : Except SyntaxError α}
    (hresult : Ensures (SyntaxError.Within lines) sound result) :
    Ensures (TemplateError.Within lines) sound (reading result) :=
  hresult.mapError fun _ herror => herror

namespace Node

variable {bound : Nat} {stream : TokenStream}

theorem keeps_readClause (word : String) (hstream : stream.Within lines) :
    Keeps (TemplateError.Within lines) lines (fun clause => ∀ expr ∈ clause.toList, expr.Within lines)
      (readClause word stream) := by
  unfold readClause
  split
  case isTrue =>
    refine Keeps.bind (keeps_parseExpression hstream.advance).reading fun expr _ hexpr hrest => ?_
    exact .ok ⟨List.forall_mem_singleton.mpr hexpr, hrest⟩
  case isFalse => exact .ok ⟨nofun, hstream⟩

theorem keeps_readClauses (hstream : stream.Within lines) :
    Keeps (TemplateError.Within lines) lines
      (fun clauses => ∀ expr ∈ clauses.1.toList ++ clauses.2.1.toList ++ clauses.2.2.toList,
        expr.Within lines) (readClauses stream) := by
  refine Keeps.bind (keeps_readClause "count" hstream) fun count _ hcount hafter => ?_
  refine Keeps.bind (keeps_readClause "with" hafter) fun vars _ hvars hafter => ?_
  refine Keeps.bind (keeps_readClause "from" hafter) fun domain _ hdomain hafter => ?_
  dsimp only
  split
  case isTrue => exact .error (hafter.refuse _)
  case isFalse =>
    split
    case isTrue => exact .error (hafter.refuse _)
    case isFalse =>
      have hclauses := List.forall_mem_append.mpr ⟨List.forall_mem_append.mpr ⟨hcount, hvars⟩, hdomain⟩
      exact .ok ⟨hclauses, hafter.advance⟩

theorem keeps_readSet {line : Nat} (hline : lines line) (hstream : stream.Within lines) :
    Keeps (SyntaxError.Within lines) lines (Node.Within lines) (readSet line stream) := by
  refine hstream.expectName.bind fun ⟨name, afterName⟩ hafterName => ?_
  refine (hafterName.expectPunct '=').bind fun afterSign hafterSign => ?_
  refine Keeps.bind (keeps_parseExpression hafterSign) fun value _ hvalue hafter => ?_
  refine (hafter.expect .blockEnd).bind fun ⟨_, rest⟩ hrest => ?_
  exact .ok ⟨(within_leaf_iff rfl).mpr ⟨hline, List.forall_mem_singleton.mpr hvalue⟩, hrest⟩

theorem keeps_readDefaultDomain {line : Nat} (hline : lines line) (hstream : stream.Within lines) :
    Keeps (SyntaxError.Within lines) lines (Node.Within lines) (readDefaultDomain line stream) := by
  refine Keeps.bind (keeps_parseExpression hstream) fun domain _ hdomain hafter => ?_
  refine (hafter.expect .blockEnd).bind fun ⟨_, rest⟩ hrest => ?_
  exact .ok ⟨(within_leaf_iff rfl).mpr ⟨hline, List.forall_mem_singleton.mpr hdomain⟩, hrest⟩

/-- The texts of a message may not fit its count, but that is no fault of syntax. -/
theorem ensures_messageTexts (text : String) (counted : Bool) :
    Ensures (TemplateError.Within lines) (fun _ => True) (messageTexts text counted) := by
  unfold messageTexts
  split
  case isTrue =>
    cases hsplit : Plural.split text with
    | error error => exact .error trivial
    | ok texts => exact .ok trivial
  case isFalse => exact .ok trivial

/-- The readers of nodes keep to the lines, with a bound on their recursion.  A tag is read behind
its name, whose line it takes. -/
structure ReadersKeep (lines : Nat → Prop) (bound : Nat) : Prop where
  nodes : ∀ {tags : List BlockTag} {inside : Bool} {stream : TokenStream}, stream.Within lines →
    Keeps (TemplateError.Within lines) lines (fun nodes => ∀ node ∈ nodes, node.Within lines)
      (readNodes tags inside bound stream)
  tag : ∀ {tags : List BlockTag} {tag : BlockTag} {line : Nat} {stream : TokenStream},
    lines line → stream.Within lines →
      Keeps (TemplateError.Within lines) lines (Node.Within lines) (readTag tags tag line bound stream)
  sections : ∀ {tags : List BlockTag} {line : Nat} {sections : Sections} {stream : TokenStream},
    lines line → stream.Within lines →
      Keeps (TemplateError.Within lines) lines (fun _ => True)
        (readSections tags line sections bound stream)

theorem ReadersKeep.zero : ReadersKeep lines 0 where
  nodes := fun hstream => .error hstream.unexpected
  tag := fun _ hstream => .error hstream.unexpected
  sections := fun _ hstream => .error hstream.unexpected

namespace ReadersKeep

theorem nodes_succ (hkeep : ReadersKeep lines bound) {tags : List BlockTag} {inside : Bool}
    (hstream : stream.Within lines) :
    Keeps (TemplateError.Within lines) lines (fun nodes => ∀ node ∈ nodes, node.Within lines)
      (readNodes tags inside (bound + 1) stream) := by
  -- What stands in front of the other nodes.
  have hcons : ∀ {node : Node} {rest : TokenStream}, node.Within lines → rest.Within lines →
      Keeps (TemplateError.Within lines) lines (fun nodes => ∀ node ∈ nodes, node.Within lines)
        (readNodes tags inside bound rest >>= fun read => .ok (node :: read.1, read.2)) := by
    intro node rest hnode hrest
    refine Keeps.bind (hkeep.nodes hrest) fun nodes _ hnodes hafter => ?_
    exact .ok ⟨List.forall_mem_cons.mpr ⟨hnode, hnodes⟩, hafter⟩
  rw [readNodes]
  dsimp only
  split
  case h_1 => exact hcons ((within_leaf_iff rfl).mpr ⟨hstream.current, nofun⟩) hstream.advance
  case h_2 =>
    refine Keeps.bind (keeps_parseExpression hstream.advance).reading fun expr _ hexpr hafter => ?_
    refine (hafter.expect .varEnd).reading.bind fun ⟨_, rest⟩ hrest => ?_
    have hprint := List.forall_mem_singleton.mpr hexpr
    exact hcons ((within_leaf_iff rfl).mpr ⟨hstream.current, hprint⟩) hrest
  case h_3 =>
    have hline := hstream.advance.current
    split
    case h_1 => exact .error (SyntaxError.within_onLine hline _)
    case h_2 =>
      split
      case isTrue => exact .ok ⟨nofun, hstream.advance⟩
      case isFalse =>
        split
        case h_1 => exact .error (SyntaxError.within_onLine hline _)
        case h_2 =>
          refine Keeps.bind (hkeep.tag hline hstream.advance.advance) fun node _ hnode hafter => ?_
          exact hcons hnode hafter
  case h_4 =>
    split
    case isTrue => exact .error (hstream.refuse _)
    case isFalse => exact .ok ⟨nofun, hstream⟩
  case h_5 => exact .error hstream.unexpected

theorem tag_succ (hkeep : ReadersKeep lines bound) {tags : List BlockTag} {tag : BlockTag} {line : Nat}
    (hline : lines line) (hstream : stream.Within lines) :
    Keeps (TemplateError.Within lines) lines (Node.Within lines)
      (readTag tags tag line (bound + 1) stream) := by
  cases tag with
  | set =>
      rw [readTag]
      exact (keeps_readSet hline hstream).reading
  | defaultDomain =>
      rw [readTag]
      exact (keeps_readDefaultDomain hline hstream).reading
  | trans =>
      rw [readTag]
      refine Keeps.bind (keeps_readClauses hstream) fun ⟨count, vars, domain⟩ _ hclauses hbody => ?_
      refine Keeps.bind (hkeep.nodes hbody) fun nodes _ hnodes hafter => ?_
      dsimp only
      split
      case h_1 =>
        refine Keeps.bind (hkeep.sections hline hafter) fun sections _ _ hend => ?_
        refine (hend.advance.expect .blockEnd).reading.bind fun ⟨_, rest⟩ hrest => ?_
        refine (ensures_messageTexts _ _).bind fun ⟨message, plural⟩ _ => ?_
        exact .ok ⟨(within_leaf_iff rfl).mpr ⟨hline, hclauses⟩, hrest⟩
      case h_2 =>
        exact .error (SyntaxError.within_onLine ((within_ofNodes hnodes hbody.current).line _ rfl) _)

theorem sections_succ (hkeep : ReadersKeep lines bound) {tags : List BlockTag} {line : Nat}
    {sections : Sections} (hline : lines line) (hstream : stream.Within lines) :
    Keeps (TemplateError.Within lines) lines (fun _ => True)
      (readSections tags line sections (bound + 1) stream) := by
  rw [readSections]
  split
  case isTrue => exact .ok ⟨trivial, hstream⟩
  case isFalse =>
    split
    case h_1 => exact .error hstream.unexpected
    case h_2 =>
      split
      case isTrue => exact .error (hstream.refuse _)
      case isFalse =>
        refine (hstream.advance.expect .blockEnd).reading.bind fun ⟨_, behind⟩ hbehind => ?_
        refine Keeps.bind (hkeep.nodes hbehind) fun nodes _ _ hafter => ?_
        dsimp only
        split
        case h_1 => exact hkeep.sections hline hafter
        case h_2 => exact .error (SyntaxError.within_onLine hline _)

end ReadersKeep

theorem readersKeep (bound : Nat) : ReadersKeep lines bound := by
  induction bound with
  | zero => exact .zero
  | succ bound ih =>
      exact { nodes := ih.nodes_succ, tag := ih.tag_succ, sections := ih.sections_succ }

end Node

/-- A source is at fault on a line of it and under its name, and its tree carries its lines. -/
theorem Source.ensures_read {source : Source} {tags : List BlockTag}
    (hlines : ∀ line, Reaches 1 source.code.toList line → lines line) :
    Ensures (fun error => ∀ fault, error = .malformed fault →
        lines fault.line ∧ fault.template = source.name)
      (Node.Within lines) (source.read tags) := by
  have hnamed : ∀ error : TemplateError, error.Within lines →
      ∀ fault, error.inTemplate source.name = .malformed fault →
        lines fault.line ∧ fault.template = source.name := by
    rintro (error | error | error) herror fault hfault
    case malformed =>
      obtain rfl := TemplateError.malformed.inj hfault
      exact SyntaxError.Within.inTemplate herror source.name
    case plural => cases hfault
    case render => cases hfault
  unfold Source.read
  have htokens := ensures_tokenize hlines
  cases hfound : tokenize source.code with
  | error error =>
      rw [hfound] at htokens
      exact .error (hnamed (.malformed error) htokens.of_error)
  | ok tokens =>
      rw [hfound] at htokens
      have hfirst : lines 1 := hlines 1 ⟨Nat.le_refl _, Nat.le_add_right _ _⟩
      have hstream := TokenStream.within_ofTokens htokens.of_ok hfirst
      have hnodes : Ensures (TemplateError.Within lines) (Node.Within lines)
          (parseNodes tags (.ofTokens tokens)) := by
        refine Keeps.bind ((Node.readersKeep _).nodes hstream) fun nodes _ hnodes _ => ?_
        exact .ok (Node.within_ofNodes hnodes hstream.current)
      exact hnodes.mapError hnamed

end TemplateMessages.Template

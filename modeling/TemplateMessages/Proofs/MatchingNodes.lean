import TemplateMessages.Proofs.MatchingExpressions
import TemplateMessages.Proofs.ParsedTags

/-!
# Nodes of tokens that match

The readers of nodes ask for the kinds of tokens and keep the data of texts for the
messages and the sections of trans tags.  So what they read of matching tokens
differs in lines and in those texts alone, and they refuse the same.
-/

namespace TemplateMessages.Template

/-- Both expressions are absent, or they are the same but for lines. -/
abbrev SameClause (expr expr' : Option Expr) : Prop :=
  Option.Rel Expr.Relined expr expr'

theorem SameClause.isSome_eq {expr expr' : Option Expr} (hsame : SameClause expr expr') :
    expr.isSome = expr'.isSome := by
  cases hsame <;> rfl

/-- How the texts of two templates are related, and with them what trans tags make of the texts: a
message and its plural, with a count or without one, and the trimmed text of a section. -/
structure Likeness where
  texts : String → String → Prop
  messages : Bool → String × Option String → String × Option String → Prop
  sections : String → String → Prop
  refl : ∀ text, texts text text
  matches_messageTexts : ∀ {text text' : String}, texts text text' → ∀ counted,
    Matches TemplateError.Agrees (messages counted) (Node.messageTexts text counted)
      (Node.messageTexts text' counted)
  trim : ∀ {text text' : String}, texts text text' → sections (Text.trim text) (Text.trim text')

variable {like : Likeness}

/-- The tags make messages that are related, in the same domain and with the same clauses. -/
structure TransTag.Like (like : Likeness) (tag tag' : TransTag) : Prop where
  message : like.messages tag.count.isSome (tag.body, tag.plural) (tag'.body, tag'.plural)
  domain : SameClause tag.domain tag'.domain
  count : SameClause tag.count tag'.count
  vars : SameClause tag.vars tag'.vars
  notes : Option.Rel like.sections tag.notes tag'.notes
  context : Option.Rel like.sections tag.context tag'.context

/-- Nodes that are read of matching tokens.  No reader reads a body of nodes as one of them. -/
inductive Node.Like (like : Likeness) : Node → Node → Prop
  | text {data data' : String} {line line' : Nat} :
      like.texts data data' → Like like (.text data line) (.text data' line')
  | print {expr expr' : Expr} {line line' : Nat} :
      expr.Relined expr' → Like like (.print expr line) (.print expr' line')
  | set {name : String} {value value' : Expr} {line line' : Nat} :
      value.Relined value' → Like like (.set name value line) (.set name value' line')
  | trans {tag tag' : TransTag} : tag.Like like tag' → Like like (.trans tag) (.trans tag')
  | defaultDomain {domain domain' : Expr} {line line' : Nat} :
      domain.Relined domain' → Like like (.defaultDomain domain line) (.defaultDomain domain' line')

theorem Expr.eq_constant_of_withoutLines {expr : Expr} {value : Value}
    (hexpr : expr.withoutLines = .constant value) : expr = .constant value := by
  cases expr with
  | constant found => exact hexpr
  | _ => cases hexpr

namespace Node

theorem literal?_print_of_ne {expr : Expr} (hexpr : ∀ value, expr ≠ .constant value) (line : Nat) :
    (print expr line).literal? = none := by
  cases expr with
  | constant value => exact absurd rfl (hexpr value)
  | _ => rfl

/-- A print holds the same text on whatever line it is. -/
theorem literal?_print {expr expr' : Expr} (hexpr : expr.Relined expr') (line line' : Nat) :
    (print expr line).literal? = (print expr' line').literal? := by
  by_cases hconstant : ∃ value, expr = .constant value
  · obtain ⟨value, rfl⟩ := hconstant
    rw [Expr.eq_constant_of_withoutLines hexpr.symm]
    cases value <;> rfl
  · have hne : ∀ value, expr ≠ .constant value := not_exists.mp hconstant
    have hne' : ∀ value, expr' ≠ .constant value := by
      rintro value rfl
      exact hne value (Expr.eq_constant_of_withoutLines hexpr)
    rw [literal?_print_of_ne hne, literal?_print_of_ne hne']

theorem Like.literal? {node node' : Node} (hnode : node.Like like node') :
    Option.Rel like.texts node.literal? node'.literal? := by
  cases hnode with
  | text hdata => exact .some hdata
  | @print expr expr' line line' hexpr =>
      rw [literal?_print hexpr line line']
      cases (Node.print expr' line').literal? with
      | none => exact .none
      | some text => exact .some (like.refl text)
  | set => exact .none
  | trans => exact .none
  | defaultDomain => exact .none

theorem literal?_ofNodes {nodes nodes' : List Node} (hnodes : List.Forall₂ (Like like) nodes nodes')
    (line line' : Nat) :
    Option.Rel like.texts (ofNodes nodes line).literal? (ofNodes nodes' line').literal? := by
  cases hnodes with
  | nil => exact .none
  | cons hnode hothers =>
      cases hothers with
      | nil => exact hnode.literal?
      | cons => exact .none

/-- The tags of a node and of one that is like it. -/
theorem Like.tags {node node' : Node} (hnode : node.Like like node') :
    List.Forall₂ (TransTag.Like like) node.tags node'.tags := by
  cases hnode with
  | trans htag => rw [tags_trans, tags_trans]; exact .cons htag .nil
  | _ => simp

theorem tags_like_of_forall₂ {nodes nodes' : List Node}
    (hnodes : List.Forall₂ (Like like) nodes nodes') (line line' : Nat) :
    List.Forall₂ (TransTag.Like like) (ofNodes nodes line).tags (ofNodes nodes' line').tags := by
  rw [tags_ofNodes, tags_ofNodes]
  exact List.rel_flatMap hnodes fun _ _ => Like.tags

/-! ## Clauses and leaves -/

variable {texts : String → String → Prop} {stream stream' : TokenStream}

theorem matches_readClause (word : String) (hstream : stream.Like texts stream') :
    MatchesRead TemplateError.Agrees texts SameClause (readClause word stream)
      (readClause word stream') := by
  unfold readClause
  rw [hstream.current.isName_eq]
  split
  case isTrue =>
    refine MatchesRead.bind (matches_parseExpression hstream.advance).reading
      fun _ _ _ _ hexpr hrest => ?_
    exact .ok ⟨.some hexpr, hrest⟩
  case isFalse => exact .ok ⟨.none, hstream⟩

/-- The clauses of a trans tag are the same. -/
structure SameClauses (clauses clauses' : Option Expr × Option Expr × Option Expr) : Prop where
  count : SameClause clauses.1 clauses'.1
  vars : SameClause clauses.2.1 clauses'.2.1
  domain : SameClause clauses.2.2 clauses'.2.2

theorem matches_readClauses (hstream : stream.Like texts stream') :
    MatchesRead TemplateError.Agrees texts SameClauses (readClauses stream) (readClauses stream') := by
  unfold readClauses
  refine MatchesRead.bind (matches_readClause "count" hstream) fun _ _ _ _ hcount hafter => ?_
  refine MatchesRead.bind (matches_readClause "with" hafter) fun _ _ _ _ hvars hafter => ?_
  refine MatchesRead.bind (matches_readClause "from" hafter) fun _ _ _ _ hdomain hafter => ?_
  dsimp only
  rw [hafter.current.isName_eq, hafter.current.isBlockEnd_eq]
  split
  case isTrue => exact .error (.malformed (SyntaxError.agrees_onLine _ _ rfl))
  case isFalse =>
    split
    case isTrue => exact .error (.malformed (SyntaxError.agrees_onLine _ _ rfl))
    case isFalse => exact .ok ⟨⟨hcount, hvars, hdomain⟩, hafter.advance⟩

theorem matches_readSet (line line' : Nat) (hstream : stream.Like like.texts stream') :
    MatchesRead SyntaxError.Agrees like.texts (Like like) (readSet line stream)
      (readSet line' stream') := by
  refine MatchesRead.bind hstream.expectName fun name name' _ _ hname hafterName => ?_
  obtain rfl : name = name' := hname
  refine (hafterName.expectPunct '=').bind fun _ _ hafterSign => ?_
  refine MatchesRead.bind (matches_parseExpression hafterSign) fun _ _ _ _ hvalue hafter => ?_
  refine (hafter.expect .blockEnd).bind fun _ _ hrest => ?_
  exact .ok ⟨.set hvalue, hrest⟩

theorem matches_readDefaultDomain (line line' : Nat) (hstream : stream.Like like.texts stream') :
    MatchesRead SyntaxError.Agrees like.texts (Like like) (readDefaultDomain line stream)
      (readDefaultDomain line' stream') := by
  refine MatchesRead.bind (matches_parseExpression hstream) fun _ _ _ _ hdomain hafter => ?_
  refine (hafter.expect .blockEnd).bind fun _ _ hrest => ?_
  exact .ok ⟨.defaultDomain hdomain, hrest⟩

/-! ## Nodes, tags and sections -/

/-- Sections whose texts are related. -/
structure Sections.Like (like : Likeness) (sections sections' : Sections) : Prop where
  notes : Option.Rel like.sections sections.notes sections'.notes
  context : Option.Rel like.sections sections.context sections'.context

namespace Sections.Like

variable {sections sections' : Sections} (hsections : sections.Like like sections')

include hsections

theorem isSome_get?_eq (tag : Section) :
    (sections.get? tag).isSome = (sections'.get? tag).isSome := by
  obtain ⟨notes, context⟩ := sections
  obtain ⟨notes', context'⟩ := sections'
  obtain ⟨hnotes, hcontext⟩ := hsections
  cases tag with
  | notes => cases hnotes <;> rfl
  | context => cases hcontext <;> rfl

theorem put (tag : Section) {text text' : String} (htext : like.sections text text') :
    (sections.put tag text).Like like (sections'.put tag text') := by
  cases tag with
  | notes => exact ⟨.some htext, hsections.context⟩
  | context => exact ⟨hsections.notes, .some htext⟩

end Sections.Like

theorem sectionAt?_eq (hstream : stream.Like texts stream') :
    sectionAt? stream = sectionAt? stream' := by
  have hname : stream.current.name? = stream'.current.name? := hstream.current.name?_eq
  rw [sectionAt?, sectionAt?, hname]

/-- The readers of nodes read the same of matching tokens, with a bound on their recursion. -/
structure ReadersMatch (like : Likeness) (bound : Nat) : Prop where
  nodes : ∀ {tags : List BlockTag} {inside : Bool} {stream stream' : TokenStream},
    stream.Like like.texts stream' →
      MatchesRead TemplateError.Agrees like.texts (List.Forall₂ (Like like))
        (readNodes tags inside bound stream) (readNodes tags inside bound stream')
  tag : ∀ {tags : List BlockTag} {tag : BlockTag} {stream stream' : TokenStream} (line line' : Nat),
    stream.Like like.texts stream' →
      MatchesRead TemplateError.Agrees like.texts (Like like)
        (readTag tags tag line bound stream) (readTag tags tag line' bound stream')
  sections : ∀ {tags : List BlockTag} {sections sections' : Sections} {stream stream' : TokenStream}
    (line line' : Nat), sections.Like like sections' → stream.Like like.texts stream' →
      MatchesRead TemplateError.Agrees like.texts (Sections.Like like)
        (readSections tags line sections bound stream)
        (readSections tags line' sections' bound stream')

variable {bound : Nat} {tags : List BlockTag}

theorem ReadersMatch.zero : ReadersMatch like 0 where
  nodes := fun hstream => .error (.malformed hstream.unexpected)
  tag := fun _ _ hstream => .error (.malformed hstream.unexpected)
  sections := fun _ _ _ hstream => .error (.malformed hstream.unexpected)

namespace ReadersMatch

theorem nodes_succ (hmatch : ReadersMatch like bound) {inside : Bool}
    (hstream : stream.Like like.texts stream') :
    MatchesRead TemplateError.Agrees like.texts (List.Forall₂ (Like like))
      (readNodes tags inside (bound + 1) stream) (readNodes tags inside (bound + 1) stream') := by
  -- What stands in front of the other nodes.
  have hcons : ∀ {node node' : Node} {rest rest' : TokenStream}, node.Like like node' →
      rest.Like like.texts rest' →
        MatchesRead TemplateError.Agrees like.texts (List.Forall₂ (Like like))
          (readNodes tags inside bound rest >>= fun read => .ok (node :: read.1, read.2))
          (readNodes tags inside bound rest' >>= fun read => .ok (node' :: read.1, read.2)) := by
    intro node node' rest rest' hnode hrest
    refine MatchesRead.bind (hmatch.nodes hrest) fun _ _ _ _ hnodes hafter => ?_
    exact .ok ⟨.cons hnode hnodes, hafter⟩
  have hcurrent : TokenKind.Like like.texts stream.current.kind stream'.current.kind :=
    hstream.current
  rw [readNodes, readNodes]
  dsimp only
  generalize stream.current.kind = kind at hcurrent ⊢
  generalize stream'.current.kind = kind' at hcurrent ⊢
  cases hcurrent with
  | text hdata => exact hcons (.text hdata) hstream.advance
  | same =>
      split
      case h_1 => exact hcons (.text (like.refl _)) hstream.advance
      case h_2 =>
        refine MatchesRead.bind (matches_parseExpression hstream.advance).reading
          fun _ _ _ _ hexpr hafter => ?_
        refine (hafter.expect .varEnd).reading.bind fun _ _ hrest => ?_
        exact hcons (.print hexpr) hrest
      case h_3 =>
        rw [show stream.advance.current.name? = stream'.advance.current.name? from
          hstream.advance.current.name?_eq]
        split
        case h_1 => exact .error (.malformed (SyntaxError.agrees_onLine _ _ rfl))
        case h_2 =>
          split
          case isTrue => exact .ok ⟨.nil, hstream.advance⟩
          case isFalse =>
            split
            case h_1 => exact .error (.malformed (SyntaxError.agrees_onLine _ _ rfl))
            case h_2 =>
              refine MatchesRead.bind (hmatch.tag _ _ hstream.advance.advance)
                fun _ _ _ _ hnode hafter => ?_
              exact hcons hnode hafter
      case h_4 =>
        split
        case isTrue => exact .error (.malformed (SyntaxError.agrees_onLine _ _ rfl))
        case isFalse => exact .ok ⟨.nil, hstream⟩
      case h_5 => exact .error (.malformed hstream.unexpected)

theorem tag_succ (hmatch : ReadersMatch like bound) {tag : BlockTag} (line line' : Nat)
    (hstream : stream.Like like.texts stream') :
    MatchesRead TemplateError.Agrees like.texts (Like like)
      (readTag tags tag line (bound + 1) stream) (readTag tags tag line' (bound + 1) stream') := by
  cases tag with
  | set =>
      rw [readTag, readTag]
      exact (matches_readSet line line' hstream).reading
  | defaultDomain =>
      rw [readTag, readTag]
      exact (matches_readDefaultDomain line line' hstream).reading
  | trans =>
      rw [readTag, readTag]
      refine MatchesRead.bind (matches_readClauses hstream)
        fun clauses clauses' body body' hclauses hbody => ?_
      obtain ⟨count, vars, domain⟩ := clauses
      obtain ⟨count', vars', domain'⟩ := clauses'
      obtain ⟨hcount, hvars, hdomain⟩ := hclauses
      refine MatchesRead.bind (hmatch.nodes hbody) fun nodes nodes' _ _ hnodes hafter => ?_
      have hliteral := literal?_ofNodes hnodes body.current.line body'.current.line
      dsimp only at hcount hvars hdomain ⊢
      generalize (ofNodes nodes body.current.line).literal? = content at hliteral ⊢
      generalize (ofNodes nodes' body'.current.line).literal? = content' at hliteral ⊢
      cases hliteral with
      | none => exact .error (.malformed (SyntaxError.agrees_onLine _ _ rfl))
      | some htext =>
          refine MatchesRead.bind (hmatch.sections line line' ⟨.none, .none⟩ hafter)
            fun _ _ _ _ hsections hend => ?_
          refine (hend.advance.expect .blockEnd).reading.bind fun _ _ hrest => ?_
          rw [← hcount.isSome_eq]
          refine (like.matches_messageTexts htext _).bind fun _ _ hmessage => ?_
          exact .ok ⟨.trans ⟨hmessage, hdomain, hcount, hvars, hsections.notes, hsections.context⟩,
            hrest⟩

theorem sections_succ (hmatch : ReadersMatch like bound) {sections sections' : Sections}
    (line line' : Nat) (hsections : sections.Like like sections')
    (hstream : stream.Like like.texts stream') :
    MatchesRead TemplateError.Agrees like.texts (Sections.Like like)
      (readSections tags line sections (bound + 1) stream)
      (readSections tags line' sections' (bound + 1) stream') := by
  rw [readSections, readSections, hstream.current.isName_eq]
  split
  case isTrue => exact .ok ⟨hsections, hstream⟩
  case isFalse =>
    rw [sectionAt?_eq hstream]
    split
    case h_1 => exact .error (.malformed hstream.unexpected)
    case h_2 tag _ =>
      rw [hsections.isSome_get?_eq]
      split
      case isTrue => exact .error (.malformed (SyntaxError.agrees_onLine _ _ rfl))
      case isFalse =>
        refine (hstream.advance.expect .blockEnd).reading.bind fun behind behind' hbehind => ?_
        refine MatchesRead.bind (hmatch.nodes hbehind) fun nodes nodes' _ _ hnodes hafter => ?_
        have hliteral := literal?_ofNodes hnodes behind.2.current.line behind'.2.current.line
        dsimp only
        generalize (ofNodes nodes behind.2.current.line).literal? = content at hliteral ⊢
        generalize (ofNodes nodes' behind'.2.current.line).literal? = content' at hliteral ⊢
        cases hliteral with
        | none => exact .error (.malformed (SyntaxError.agrees_onLine _ _ rfl))
        | some htext =>
            exact hmatch.sections line line' (hsections.put tag (like.trim htext)) hafter

end ReadersMatch

theorem readersMatch (like : Likeness) (bound : Nat) : ReadersMatch like bound := by
  induction bound with
  | zero => exact .zero
  | succ bound ih =>
      exact { nodes := ih.nodes_succ, tag := ih.tag_succ, sections := ih.sections_succ }

end Node

/-- Matching tokens are refused alike, or they are read as trees with the same trans tags, but for
their texts and lines. -/
theorem matches_parseNodes {stream stream' : TokenStream} (hstream : stream.Like like.texts stream')
    (tags : List BlockTag) :
    Matches TemplateError.Agrees
      (fun node node' => List.Forall₂ (TransTag.Like like) node.tags node'.tags)
      (parseNodes tags stream) (parseNodes tags stream') := by
  rw [parseNodes, parseNodes, hstream.depthBound_eq]
  refine MatchesRead.bind ((Node.readersMatch like _).nodes hstream) fun _ _ _ _ hnodes _ => ?_
  exact .ok (Node.tags_like_of_forall₂ hnodes _ _)

end TemplateMessages.Template

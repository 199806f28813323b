import TemplateMessages.Proofs.Trimming
import TemplateMessages.Template.Session

/-!
# The trans tags of a template

The reader of a trans tag sees to two things that the tag's type does not say:
a tag has a plural exactly when it has a count, and its context is trimmed.
Filling in default domains changes neither, so both hold of every tag in the
tree that a session yields.  Every tag of a tree is recorded when messages are
collected and printed when the template is rendered.
-/

namespace TemplateMessages.Template

/-- What holds of a tag that has been read. -/
structure TransTag.Regular (tag : TransTag) : Prop where
  plural_isSome : tag.plural.isSome = tag.count.isSome
  trim_context : ∀ context, tag.context = some context → Text.trim context = context

def Step.tag? : Step → Option TransTag
  | .enter (.trans tag) => some tag
  | _ => none

namespace Node

/-- The trans tags of a tree, in the order of the walk. -/
def tags (node : Node) : List TransTag :=
  node.walk.filterMap Step.tag?

@[simp]
theorem filterMap_tag?_visits (exprs : List Expr) : (visits exprs).filterMap Step.tag? = [] := by
  simp [visits, List.filterMap_map, Function.comp_def, Step.tag?]

/-- A node without nodes in it has no tag but itself. -/
theorem filterMap_tag?_leaf (node : Node) (exprs : List Expr) :
    (.enter node :: (visits exprs ++ [.leave])).filterMap Step.tag? =
      (Step.enter node).tag?.toList := by
  have hinner : (visits exprs ++ [Step.leave]).filterMap Step.tag? = [] := by
    rw [List.filterMap_append, filterMap_tag?_visits]
    rfl
  rw [List.filterMap_cons, hinner]
  cases (Step.enter node).tag? <;> rfl

@[simp]
theorem tags_text (data : String) (line : Nat) : (text data line).tags = [] := rfl

@[simp]
theorem tags_print (expr : Expr) (line : Nat) : (print expr line).tags = [] :=
  filterMap_tag?_leaf (print expr line) [expr]

@[simp]
theorem tags_set (name : String) (value : Expr) (line : Nat) : (set name value line).tags = [] :=
  filterMap_tag?_leaf (set name value line) [value]

@[simp]
theorem tags_trans (tag : TransTag) : (trans tag).tags = [tag] :=
  filterMap_tag?_leaf (trans tag) tag.expressions

@[simp]
theorem tags_defaultDomain (domain : Expr) (line : Nat) : (defaultDomain domain line).tags = [] :=
  filterMap_tag?_leaf (defaultDomain domain line) [domain]

theorem filterMap_tag?_walkAll (nodes : List Node) :
    (walkAll nodes).filterMap Step.tag? = nodes.flatMap tags := by
  induction nodes with
  | nil => rfl
  | cons node rest ih => rw [walkAll, List.filterMap_append, ih, List.flatMap_cons, tags]

@[simp]
theorem tags_body (nodes : List Node) (line : Nat) : (body nodes line).tags = nodes.flatMap tags := by
  rw [tags, walk, List.filterMap_cons_none rfl, List.filterMap_append, filterMap_tag?_walkAll]
  exact List.append_nil _

theorem tags_ofNodes (nodes : List Node) (line : Nat) :
    (ofNodes nodes line).tags = nodes.flatMap tags := by
  unfold ofNodes
  split <;> simp

/-- A tree all of whose tags are regular. -/
def Regular (node : Node) : Prop :=
  ∀ tag ∈ node.tags, tag.Regular

/-! ## Reading -/

/-- The context among the sections is trimmed. -/
def Sections.Regular (sections : Sections) : Prop :=
  ∀ context, sections.context = some context → Text.trim context = context

theorem Sections.regular_put {sections : Sections} (hregular : sections.Regular) (tag : Section)
    (text : String) : (sections.put tag (Text.trim text)).Regular := by
  cases tag with
  | notes => exact hregular
  | context =>
      intro context hcontext
      obtain rfl : Text.trim text = context := Option.some.inj hcontext
      exact Text.trim_trim text

theorem regular_readSections {blocks : List BlockTag} {line bound : Nat} {sections result : Sections}
    {stream rest : TokenStream} (hregular : sections.Regular)
    (hread : readSections blocks line sections bound stream = .ok (result, rest)) :
    result.Regular := by
  induction bound generalizing sections stream with
  | zero => simp [readSections] at hread
  | succ bound ih =>
      rw [readSections] at hread
      split at hread
      case isTrue hend =>
        obtain rfl : sections = result := congrArg Prod.fst (Except.ok.inj hread)
        exact hregular
      case isFalse =>
        split at hread
        case h_1 => cases hread
        case h_2 tag _ =>
          split at hread
          case isTrue => cases hread
          case isFalse =>
            obtain ⟨_, _, hread⟩ := bind_eq_ok.mp hread
            obtain ⟨⟨nodes, after⟩, _, hread⟩ := bind_eq_ok.mp hread
            dsimp only at hread
            split at hread
            case h_1 => exact ih (Sections.regular_put hregular tag _) hread
            case h_2 => cases hread

/-- The texts of a message have a plural exactly when it is counted. -/
theorem isSome_of_messageTexts {text message : String} {counted : Bool} {plural : Option String}
    (htexts : messageTexts text counted = .ok (message, plural)) : plural.isSome = counted := by
  cases counted with
  | false =>
      obtain ⟨-, rfl⟩ : _ ∧ none = plural := by simpa [messageTexts] using htexts
      rfl
  | true =>
      obtain ⟨rules, -, htexts⟩ := bind_eq_ok.mp htexts
      obtain rfl : some (Text.collapseBlanks rules.2) = plural :=
        congrArg Prod.snd (Except.ok.inj htexts)
      rfl

theorem regular_readTag {blocks : List BlockTag} {tag : BlockTag} {line bound : Nat}
    {stream rest : TokenStream} {node : Node}
    (hread : readTag blocks tag line bound stream = .ok (node, rest)) : node.Regular := by
  cases bound with
  | zero => simp [readTag] at hread
  | succ bound =>
      cases tag with
      | set =>
          rw [readTag, reading_eq_ok] at hread
          obtain ⟨_, _, hread⟩ := bind_eq_ok.mp hread
          obtain ⟨_, _, hread⟩ := bind_eq_ok.mp hread
          obtain ⟨_, _, hread⟩ := bind_eq_ok.mp hread
          obtain ⟨_, _, hread⟩ := bind_eq_ok.mp hread
          cases hread
          simp [Regular]
      | defaultDomain =>
          rw [readTag, reading_eq_ok] at hread
          obtain ⟨_, _, hread⟩ := bind_eq_ok.mp hread
          obtain ⟨_, _, hread⟩ := bind_eq_ok.mp hread
          cases hread
          simp [Regular]
      | trans =>
          rw [readTag] at hread
          obtain ⟨⟨⟨count, vars, domain⟩, _⟩, _, hread⟩ := bind_eq_ok.mp hread
          obtain ⟨⟨nodes, after⟩, _, hread⟩ := bind_eq_ok.mp hread
          dsimp only at hread
          split at hread
          case h_1 =>
            obtain ⟨⟨sections, _⟩, hsections, hread⟩ := bind_eq_ok.mp hread
            obtain ⟨_, _, hread⟩ := bind_eq_ok.mp hread
            obtain ⟨⟨message, plural⟩, htexts, hread⟩ := bind_eq_ok.mp hread
            have hcontext : sections.Regular :=
              regular_readSections (fun _ hnone => (Option.some_ne_none _ hnone.symm).elim) hsections
            cases hread
            intro tag htag
            obtain rfl := List.mem_singleton.mp (tags_trans _ ▸ htag)
            exact ⟨isSome_of_messageTexts htexts, hcontext⟩
          case h_2 => cases hread

theorem regular_readNodes {blocks : List BlockTag} {inside : Bool} {bound : Nat}
    {stream rest : TokenStream} {nodes : List Node}
    (hread : readNodes blocks inside bound stream = .ok (nodes, rest)) :
    ∀ node ∈ nodes, node.Regular := by
  induction bound generalizing stream nodes with
  | zero => simp [readNodes] at hread
  | succ bound ih =>
      rw [readNodes] at hread
      dsimp only at hread
      split at hread
      case h_1 =>
        obtain ⟨⟨others, _⟩, hothers, hread⟩ := bind_eq_ok.mp hread
        cases hread
        exact List.forall_mem_cons.mpr ⟨by simp [Regular], ih hothers⟩
      case h_2 =>
        obtain ⟨_, _, hread⟩ := bind_eq_ok.mp hread
        obtain ⟨_, _, hread⟩ := bind_eq_ok.mp hread
        obtain ⟨⟨others, _⟩, hothers, hread⟩ := bind_eq_ok.mp hread
        cases hread
        exact List.forall_mem_cons.mpr ⟨by simp [Regular], ih hothers⟩
      case h_3 =>
        split at hread
        case h_1 => cases hread
        case h_2 =>
          split at hread
          case isTrue =>
            obtain rfl : [] = nodes := congrArg Prod.fst (Except.ok.inj hread)
            exact List.forall_mem_nil _
          case isFalse =>
            split at hread
            case h_1 => cases hread
            case h_2 =>
              obtain ⟨_, htag, hread⟩ := bind_eq_ok.mp hread
              obtain ⟨⟨others, _⟩, hothers, hread⟩ := bind_eq_ok.mp hread
              cases hread
              exact List.forall_mem_cons.mpr ⟨regular_readTag htag, ih hothers⟩
      case h_4 =>
        split at hread
        case isTrue => cases hread
        case isFalse =>
          obtain rfl : [] = nodes := congrArg Prod.fst (Except.ok.inj hread)
          exact List.forall_mem_nil _
      case h_5 => cases hread

theorem regular_read {source : Source} {blocks : List BlockTag} {node : Node}
    (hread : source.read blocks = .ok node) : node.Regular := by
  unfold Source.read at hread
  split at hread
  · cases hread
  · rw [mapError_eq_ok] at hread
    obtain ⟨⟨nodes, _⟩, hnodes, hread⟩ := bind_eq_ok.mp hread
    cases hread
    intro tag htag
    rw [tags_ofNodes, List.mem_flatMap] at htag
    obtain ⟨inner, hinner, htag⟩ := htag
    exact regular_readNodes hnodes inner hinner tag htag

end Node

/-! ## Filling in default domains -/

theorem TransTag.regular_inScope {tag : TransTag} (hregular : tag.Regular) (scope : DomainScope) :
    (tag.inScope scope).Regular where
  plural_isSome := by simpa [inScope] using hregular.plural_isSome
  trim_context := hregular.trim_context

namespace Node

mutual

theorem regular_fillDomains {node : Node} (hregular : node.Regular) (scope : DomainScope) :
    (node.fillDomains scope).1.Regular := by
  cases node with
  | text data line => simp [fillDomains, Regular]
  | print expr line => simp [fillDomains, Regular]
  | set name value line => simp [fillDomains, Regular]
  | body nodes line =>
      have hnodes : ∀ node ∈ nodes, node.Regular := by
        intro node hnode tag htag
        refine hregular tag ?_
        rw [tags_body]
        exact List.mem_flatMap.mpr ⟨node, hnode, htag⟩
      have hfilled := regular_fillAll hnodes (scope.enter (.body nodes line))
      intro tag htag
      simp only [fillDomains, tags_body, List.mem_flatMap] at htag
      obtain ⟨inner, hinner, htag⟩ := htag
      exact hfilled inner hinner tag htag
  | trans tag =>
      have htag : tag.Regular := hregular tag (by simp)
      simpa [fillDomains, Regular] using TransTag.regular_inScope htag _
  | defaultDomain domain line => simp [fillDomains, Regular]

theorem regular_fillAll {nodes : List Node} (hregular : ∀ node ∈ nodes, node.Regular)
    (scope : DomainScope) : ∀ node ∈ (fillAll scope nodes).1, node.Regular := by
  cases nodes with
  | nil => simp [fillAll]
  | cons node rest =>
      obtain ⟨hnode, hrest⟩ := List.forall_mem_cons.mp hregular
      exact List.forall_mem_cons.mpr
        ⟨regular_fillDomains hnode scope, regular_fillAll hrest (node.fillDomains scope).2⟩

end

end Node

/-- Every tag in the tree that a session yields is regular. -/
theorem Session.regular_parse {session : Session} {source : Source} {node : Node}
    (hparse : (session.parse source).1 = .ok node) : node.Regular := by
  unfold parse at hparse
  cases hread : source.read allTags with
  | error error =>
      rw [hread] at hparse
      cases hparse
  | ok written =>
      rw [hread] at hparse
      obtain rfl : (written.fillDomains session.scope).1 = node := Except.ok.inj hparse
      exact Node.regular_fillDomains (Node.regular_read hread) session.scope

/-! ## Recording and printing -/

namespace Node

/-- The messages of a tree include that of every tag in it. -/
theorem ofTag_mem_ofNode {node : Node} {tag : TransTag} (htag : tag ∈ node.tags) :
    Message.ofTag tag ∈ Message.ofNode node := by
  obtain ⟨step, hstep, hfound⟩ := List.mem_filterMap.mp htag
  refine List.mem_filterMap.mpr ⟨step, hstep, ?_⟩
  cases step with
  | enter inner =>
      cases inner <;> simp_all [Step.tag?, Message.ofStep?]
  | visit expr => simp [Step.tag?] at hfound
  | leave => simp [Step.tag?] at hfound

mutual

/-- The program of a tree prints every tag in it. -/
theorem print_mem_program {node : Node} {tag : TransTag} (htag : tag ∈ node.tags) :
    .print tag.expression ∈ node.program := by
  cases node with
  | body nodes line =>
      rw [tags_body] at htag
      exact print_mem_programAll htag
  | trans other =>
      obtain rfl : tag = other := by simpa using htag
      simp [program]
  | _ => simp at htag

theorem print_mem_programAll {nodes : List Node} {tag : TransTag}
    (htag : tag ∈ nodes.flatMap tags) : .print tag.expression ∈ programAll nodes := by
  cases nodes with
  | nil => simp at htag
  | cons node rest =>
      rw [List.flatMap_cons, List.mem_append] at htag
      rw [programAll, List.mem_append]
      rcases htag with htag | htag
      · exact Or.inl (print_mem_program htag)
      · exact Or.inr (print_mem_programAll htag)

end

end Node

end TemplateMessages.Template

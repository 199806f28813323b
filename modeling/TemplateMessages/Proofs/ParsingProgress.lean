import TemplateMessages.Proofs.ExpressionProgress

/-!
# Progress in templates

The parser of nodes ends, too, from every cursor, and agrees with the reader of
nodes.  A part of a trans tag may be empty, but the tags around it are not, so
here as well every turn of a loop that goes on has passed a token.
-/

namespace TemplateMessages.Template

namespace Parse

variable {ε α β σ : Type}

/-! ## Tags -/

theorem depthBound_stream (cursor : TokenCursor) :
    cursor.stream.depthBound = 4 * cursor.left + 4 := by
  rw [TokenStream.depthBound, TokenCursor.stream, TokenCursor.left, List.length_drop,
    List.length_dropLast]
  omega

/-- Where fewer tokens than some number are left, the parser passes an expression. -/
def Parses (limit : Nat) (expr : Parse SyntaxError Expr) : Prop :=
  ∀ cursor, cursor.left < limit →
    Follows cursor (Passes cursor) (expr cursor) (parseExpression cursor.stream)

theorem parses_expression (bound : Nat) : Parses bound (expression bound) := by
  intro cursor hlimit
  unfold parseExpression
  rw [depthBound_stream]
  exact reads_expression bound cursor _ hlimit (by omega)

theorem reading_eq (parser : Parse SyntaxError α) (cursor : TokenCursor) :
    reading parser cursor =
      (parser cursor).map (Prod.map (Except.mapError TemplateError.malformed) id) := by
  show (parser cursor).bind _ = _
  cases parser cursor <;> rfl

theorem Follows.reading {start cursor : TokenCursor} {parser : Parse SyntaxError α}
    {result : Except SyntaxError (α × TokenStream)}
    (hfollows : Follows start (Passes start) (parser cursor) result) :
    Follows start (Passes start) (Parse.reading parser cursor) (Template.reading result) := by
  rw [reading_eq]
  generalize parser cursor = outcome at hfollows
  cases hfollows with
  | ok hreach hpasses =>
      obtain ⟨hlt, rfl⟩ := hpasses
      exact .ok hreach ⟨hlt, rfl⟩
  | error hreach => exact .error hreach

theorem blockEnd_ne_eof : TokenKind.blockEnd ≠ .eof := nofun

section Tags

variable {limit : Nat} {expr : Parse SyntaxError Expr} {cursor : TokenCursor}

theorem follows_setBlock (hexpr : Parses limit expr) (hlimit : cursor.left < limit) (line : Nat) :
    Follows cursor (Passes cursor) (setBlock expr line cursor)
      (Node.readSet line cursor.stream) := by
  refine (follows_expectName cursor).pass (.refl cursor) ?_
  intro name afterName hreach hname
  refine Follows.passPunct hreach ?_
  intro _ afterMark hreach hmark
  refine (hexpr afterMark (by omega)).pass hreach ?_
  intro value afterValue hreach hvalue
  refine (follows_expect blockEnd_ne_eof afterValue).pass hreach ?_
  intro _ after hreach hend
  exact .ok hreach ⟨by omega, rfl⟩

theorem follows_defaultDomainBlock (hexpr : Parses limit expr) (hlimit : cursor.left < limit)
    (line : Nat) :
    Follows cursor (Passes cursor) (defaultDomainBlock expr line cursor)
      (Node.readDefaultDomain line cursor.stream) := by
  refine (hexpr cursor hlimit).pass (.refl cursor) ?_
  intro domain afterDomain hreach hdomain
  refine (follows_expect blockEnd_ne_eof afterDomain).pass hreach ?_
  intro _ after hreach hend
  exact .ok hreach ⟨by omega, rfl⟩

/-- A clause that is missing passes nothing. -/
theorem follows_clause (hexpr : Parses limit expr) (hlimit : cursor.left < limit) (word : String) :
    Follows cursor Yields (clause expr word cursor) (Node.readClause word cursor.stream) := by
  unfold clause Node.readClause
  rw [bind_current, TokenCursor.current_stream, TokenCursor.advance_stream]
  by_cases hword : cursor.current.isName word = true
  · rw [if_pos hword, if_pos hword, bind_next]
    have hle := cursor.reaches_next.left_le
    refine (hexpr cursor.next (by omega)).reading.pass cursor.reaches_next ?_
    intro value after hreach _
    exact .ok hreach rfl
  · rw [if_neg hword, if_neg hword]
    exact .ok (.refl cursor) rfl

theorem follows_clauses (hexpr : Parses limit expr) (hlimit : cursor.left < limit) :
    Follows cursor (Passes cursor) (clauses expr cursor) (Node.readClauses cursor.stream) := by
  unfold clauses Node.readClauses
  refine (follows_clause hexpr hlimit "count").bind (.refl cursor) ?_
  rintro count afterCount _ hcount rfl
  have hlimit := Nat.lt_of_le_of_lt hcount.left_le hlimit
  refine (follows_clause hexpr hlimit "with").bind hcount ?_
  rintro vars afterVars _ hvars rfl
  have hlimit := Nat.lt_of_le_of_lt hvars.left_le hlimit
  refine (follows_clause hexpr hlimit "from").bind (hcount.trans hvars) ?_
  rintro domain after _ hdomain rfl
  have hreach := (hcount.trans hvars).trans hdomain
  have hle := hreach.left_le
  simp only [ok_bind, bind_current, TokenCursor.current_stream]
  by_cases hinto : after.current.isName "into" = true
  · rw [if_pos hinto, if_pos hinto]
    exact .error hreach
  rw [if_neg hinto, if_neg hinto]
  by_cases hend : after.current.isBlockEnd = true
  · have hkind : after.current.kind = .blockEnd := beq_iff_eq.mp hend
    have hlt := left_next_lt_of_kind hkind nofun
    have hpassed : reading (expect .blockEnd) after = some (.ok after.current, after.next) := by
      rw [reading_eq, expect_of_fits (by rw [hkind]; rfl)]
      rfl
    rw [if_pos hend, bind_of_ok hpassed, hend, TokenCursor.advance_stream]
    exact .ok (hreach.trans after.reaches_next) ⟨by omega, rfl⟩
  · rw [if_neg hend, Bool.eq_false_iff.mpr hend]
    exact .error hreach

end Tags

/-! ## Trans tags -/

section Trans

variable {tags : List BlockTag} {limit turns bound : Nat} {expr : Parse SyntaxError Expr}
  {part : Parse TemplateError Node} {cursor : TokenCursor}

/-- The reader yields nodes, and the parser has them as one node. -/
def Gathers (line : Nat) (node : Node) (after : TokenCursor)
    (result : Except ε (List Node × TokenStream)) : Prop :=
  ∃ found, node = .ofNodes found line ∧ result = .ok (found, after.stream)

/-- Where fewer tokens than some number are left, the parser follows the reader of nodes. -/
def Gathering (tags : List BlockTag) (inside : Bool) (limit : Nat)
    (part : Parse TemplateError Node) : Prop :=
  ∀ cursor bound, cursor.left < limit → 4 * cursor.left + 4 ≤ bound →
    Follows cursor (Gathers cursor.current.line) (part cursor)
      (Node.readNodes tags inside bound cursor.stream)

theorem exists_name_of_sectionOf? {token : Token} {tag : Section}
    (htag : sectionOf? token = some tag) : ∃ name, token.name? = some name := by
  rw [sectionOf?] at htag
  cases hname : token.name? with
  | none =>
      rw [hname] at htag
      cases htag
  | some name => exact ⟨name, rfl⟩

/-- A turn for the sections ends on the name of the closing tag or passes a section. -/
theorem turns_section (hpart : Gathering tags true limit part) (line : Nat) :
    Turns limit 1 (sectionTurn part line)
      (fun bound sections => Node.readSections tags line sections bound) Yields := by
  intro cursor bound sections hlimit hbound
  show Follows cursor _ _ (Node.readSections tags line sections (bound + 1) cursor.stream)
  unfold sectionTurn
  rw [Node.readSections, bind_current, TokenCursor.current_stream, TokenCursor.advance_stream]
  by_cases hclosing : cursor.current.isName "endtrans" = true
  · rw [if_pos hclosing, if_pos hclosing]
    exact .ok (.refl cursor) rfl
  rw [if_neg hclosing, if_neg hclosing, bind_next]
  have hat : Node.sectionAt? cursor.stream = sectionOf? cursor.current :=
    congrArg sectionOf? cursor.current_stream
  rw [hat]
  cases htag : sectionOf? cursor.current with
  | none =>
      rw [TokenStream.unexpected, TokenCursor.current_stream]
      exact .error cursor.reaches_next
  | some tag =>
      obtain ⟨name, hname⟩ := exists_name_of_sectionOf? htag
      have hnext := left_next_lt_of_name? hname
      dsimp only
      by_cases hrepeated : (sections.get? tag).isSome = true
      · rw [if_pos hrepeated, if_pos hrepeated]
        exact .error cursor.reaches_next
      rw [if_neg hrepeated, if_neg hrepeated]
      unfold sectionText
      simp only [bind_assoc]
      refine (follows_expect blockEnd_ne_eof cursor.next).reading.pass cursor.reaches_next ?_
      intro _ afterEnd hreach hend
      refine (hpart afterEnd bound (by omega) (by omega)).bind hreach ?_
      rintro _ after _ hbody ⟨found, rfl, rfl⟩
      have hle := hbody.left_le
      simp only [ok_bind, TokenCursor.current_stream]
      cases (Node.ofNodes found afterEnd.current.line).literal? with
      | none => exact .error (hreach.trans hbody)
      | some content => exact .ok (hreach.trans hbody) ⟨by omega, rfl⟩

theorem follows_transBlock (hexpr : Parses limit expr) (hpart : Gathering tags true limit part)
    (hlimit : cursor.left < limit) (hturns : cursor.left < turns)
    (hbound : 4 * cursor.left + 1 ≤ bound + 1) (line : Nat) :
    Follows cursor (Passes cursor) (transBlock expr part turns line cursor)
      (Node.readTag tags .trans line (bound + 1) cursor.stream) := by
  unfold transBlock
  rw [Node.readTag]
  refine (follows_clauses hexpr hlimit).pass (.refl cursor) ?_
  rintro ⟨count, vars, domain⟩ afterClauses hreach hclauses
  refine (hpart afterClauses bound (by omega) (by omega)).bind hreach ?_
  rintro _ afterBody _ hbody ⟨found, rfl, rfl⟩
  have hreach := hreach.trans hbody
  have hle := hbody.left_le
  simp only [ok_bind, TokenCursor.current_stream]
  cases (Node.ofNodes found afterClauses.current.line).literal? with
  | none => exact .error hreach
  | some content =>
      -- The loop stops on the name of the closing tag, which is taken before its end is expected.
      have hturn := turns_section hpart line
      refine (follows_loop Nat.one_pos hturn (by omega) (by omega) (by omega)).bind hreach ?_
      rintro sections afterSections _ hsections rfl
      have hreach := hreach.trans hsections
      have hsections := hsections.left_le
      have hnext := afterSections.reaches_next.left_le
      rw [bind_next]
      simp only [ok_bind, TokenCursor.advance_stream]
      refine (follows_expect blockEnd_ne_eof afterSections.next).reading.pass
        (hreach.trans afterSections.reaches_next) ?_
      intro _ after hreach hend
      cases hmessage : Node.messageTexts content count.isSome with
      | error error => exact .error hreach
      | ok texts => exact .ok hreach ⟨by omega, rfl⟩

theorem follows_block (hexpr : Parses limit expr) (hpart : Gathering tags true limit part)
    (hlimit : cursor.left < limit) (hturns : cursor.left < turns)
    (hbound : 4 * cursor.left + 1 ≤ bound) (tag : BlockTag) (line : Nat) :
    Follows cursor (Passes cursor) (block expr part turns tag line cursor)
      (Node.readTag tags tag line bound cursor.stream) := by
  obtain ⟨bound, rfl⟩ : ∃ less, bound = less + 1 := ⟨bound - 1, by omega⟩
  cases tag with
  | set =>
      rw [Node.readTag]
      exact (follows_setBlock hexpr hlimit line).reading
  | defaultDomain =>
      rw [Node.readTag]
      exact (follows_defaultDomainBlock hexpr hlimit line).reading
  | trans => exact follows_transBlock hexpr hpart hlimit hturns hbound line

end Trans

/-! ## Nodes -/

section Nodes

variable {tags : List BlockTag} {inside : Bool} {limit : Nat} {expr : Parse SyntaxError Expr}
  {part : Parse TemplateError Node}

/-- The nodes found and those that are left to read. -/
def nodesBehind (tags : List BlockTag) (inside : Bool) (bound : Nat) (found : List Node)
    (stream : TokenStream) : Except TemplateError (List Node × TokenStream) := do
  let (more, stream) ← Node.readNodes tags inside bound stream
  return (found ++ more, stream)

theorem nodesBehind_append (bound : Nat) (found : List Node) (node : Node) (stream : TokenStream) :
    (do
      let (nodes, stream) ← Node.readNodes tags inside bound stream
      return (found ++ node :: nodes, stream)) =
      nodesBehind tags inside bound (found ++ [node]) stream := by
  unfold nodesBehind
  simp only [List.append_assoc, List.singleton_append]

/-- A turn for the nodes ends at the end of the template or of the part, or passes a node. -/
theorem turns_node (hexpr : Parses limit expr) (hpart : Gathering tags true limit part)
    (inside : Bool) :
    Turns (limit + 1) 4 (nodeTurn expr part tags inside limit) (nodesBehind tags inside)
      Yields := by
  intro cursor bound found hlimit hbound
  show Follows cursor _ _ (Node.readNodes tags inside (bound + 1) cursor.stream >>= _)
  unfold nodeTurn
  rw [Node.readNodes, bind_current, TokenCursor.current_stream, TokenCursor.advance_stream]
  cases hkind : cursor.current.kind with
  | text data =>
      have hlt := left_next_lt_of_kind hkind nofun
      refine .ok cursor.reaches_next ⟨hlt, ?_⟩
      simp only [bind_assoc, pure_bind]
      exact nodesBehind_append bound found _ cursor.next.stream
  | varStart =>
      have hlt := left_next_lt_of_kind hkind nofun
      have hmore : TokenKind.varEnd ≠ .eof := nofun
      simp only [bind_assoc]
      rw [bind_next]
      refine (hexpr cursor.next (by omega)).reading.pass cursor.reaches_next ?_
      intro value afterValue hreach hvalue
      refine (follows_expect hmore afterValue).reading.pass hreach ?_
      intro _ after hreach hend
      exact .ok hreach ⟨by omega, nodesBehind_append bound found _ after.stream⟩
  | blockStart =>
      have hlt := left_next_lt_of_kind hkind nofun
      simp only [TokenCursor.current_stream, TokenCursor.advance_stream]
      rw [bind_next, bind_current]
      cases hname : cursor.next.current.name? with
      | none => exact .error cursor.reaches_next
      | some word =>
          have hword := left_next_lt_of_name? hname
          dsimp only
          by_cases hend : (inside && Node.partEnds.contains word) = true
          · rw [if_pos hend, if_pos hend]
            exact .ok cursor.reaches_next (ok_append_nil found cursor.next.stream)
          rw [if_neg hend, if_neg hend]
          cases tags.find? fun tag => tag.name == word with
          | none => exact .error cursor.reaches_next
          | some tag =>
              have hreach := cursor.reaches_next.trans cursor.next.reaches_next
              simp only [bind_assoc]
              rw [bind_next]
              refine (follows_block hexpr hpart (by omega) (by omega) (by omega) tag _).pass
                hreach ?_
              intro node after hreach hnode
              exact .ok hreach ⟨by omega, nodesBehind_append bound found node after.stream⟩
  | eof =>
      cases inside with
      | true => exact .error (.refl cursor)
      | false => exact .ok (.refl cursor) (ok_append_nil found cursor.stream)
  | _ =>
      dsimp only
      rw [TokenStream.unexpected, TokenCursor.current_stream, hkind]
      exact .error (.refl cursor)

end Nodes

theorem gathering_nodes (tags : List BlockTag) (bound : Nat) (inside : Bool) :
    Gathering tags inside bound (nodes tags bound inside) := by
  -- Expressions and parts lie behind a token, so the bound that they have left is enough for them.
  induction bound generalizing inside with
  | zero => exact fun cursor _ hlimit => absurd hlimit (Nat.not_lt_zero _)
  | succ bound ih =>
      intro cursor fuel hlimit hfuel
      have hturn : Turns (bound + 1) 4 _ (nodesBehind tags inside) Yields :=
        turns_node (parses_expression bound) (ih true) inside
      have hrest : nodesBehind tags inside fuel [] cursor.stream =
          Node.readNodes tags inside fuel cursor.stream :=
        bind_pure (Node.readNodes tags inside fuel cursor.stream)
      rw [nodes, bind_current, ← hrest]
      refine (follows_loop (by decide) hturn hlimit hlimit hfuel).andThen (.refl cursor) ?_
      intro found after hreach _ hfound
      exact .ok hreach ⟨found, rfl, hfound⟩

/-! ## The end of parsing -/

/-- From the cursor the parser has an answer and does not go back, and it goes forward when it
yields a value of some kind. -/
def Advances (moving : α → Prop) (parser : Parse ε α) (cursor : TokenCursor) : Prop :=
  ∃ answer after, parser cursor = some (answer, after) ∧ cursor.Reaches after ∧
    ∀ value, answer = .ok value → moving value → cursor.position < after.position

/-- The loop has another turn. -/
def goesOn : Turn σ α → Prop
  | .again _ => True
  | .done _ => False

theorem Follows.advances {cursor : TokenCursor} {parser : Parse ε α} {result : Except ε β}
    {settled : α → TokenCursor → Except ε β → Prop} {moving : α → Prop}
    (hfollows : Follows cursor settled (parser cursor) result)
    (hmoving : ∀ value after, settled value after result → moving value →
      after.left < cursor.left) :
    Advances moving parser cursor := by
  generalize houtcome : parser cursor = outcome at hfollows
  cases hfollows with
  | ok hreach hsettled =>
      refine ⟨_, _, houtcome, hreach, ?_⟩
      rintro value hvalue hforward
      cases hvalue
      exact hreach.left_lt_iff.mp (hmoving _ _ hsettled hforward)
  | error hreach => exact ⟨_, _, houtcome, hreach, nofun⟩

theorem Turns.advances {limit slack : Nat} {turn : σ → Parse ε (Turn σ α)}
    {rest : Nat → σ → TokenStream → Except ε β} {settled : α → TokenCursor → Except ε β → Prop}
    {cursor : TokenCursor} (hturn : Turns limit slack turn rest settled)
    (hlimit : cursor.left < limit) (state : σ) : Advances goesOn (turn state) cursor := by
  refine (hturn cursor (4 * cursor.left + slack) state hlimit (Nat.le_succ _)).advances ?_
  rintro (state | value) after hturned hgoes
  · exact hturned.1
  · exact hgoes.elim

/-- What each call and each turn of a loop does from a cursor, with parsers that have the bound
left for what lies deeper. -/
structure Progress (tags : List BlockTag) (bound : Nat) (cursor : TokenCursor) : Prop where
  expression : Advances (fun _ => True) (expression bound) cursor
  filters : ∀ subject, Advances goesOn (filterTurn (Parse.expression bound) bound subject) cursor
  items : ∀ found, Advances goesOn (elementTurn ']' true (Parse.expression bound) found) cursor
  entries : ∀ found,
    Advances goesOn (elementTurn '}' true (entry (Parse.expression bound)) found) cursor
  arguments : ∀ found,
    Advances goesOn (elementTurn ')' false (argument (Parse.expression bound)) found) cursor
  nodes : ∀ inside, Advances (fun _ => False) (nodes tags bound inside) cursor
  sections : ∀ line sections,
    Advances goesOn (sectionTurn (Parse.nodes tags bound true) line sections) cursor

theorem progress {tags : List BlockTag} {bound : Nat} {cursor : TokenCursor}
    (hbound : cursor.left < bound) : Progress tags bound cursor where
  expression :=
    (parses_expression bound cursor hbound).advances fun _ _ hpasses _ => hpasses.1
  filters := (turns_filter (reads_expression bound)).advances hbound
  items := (turns_element (reads_expression bound) readsList_readItems).advances hbound
  entries :=
    (turns_element (reads_entry (reads_expression bound)) readsList_readEntries).advances hbound
  arguments := (turns_element (reads_argument (reads_expression bound))
    readsList_readArgumentList).advances hbound
  nodes inside := (gathering_nodes tags bound inside cursor _ hbound (Nat.le_refl _)).advances
    fun _ _ _ hfalse => hfalse.elim
  sections line := (turns_section (gathering_nodes tags bound true) line).advances hbound

theorem nodes_eq_parseNodes (tags : List BlockTag) {bound : Nat} (tokens : List Token)
    (hbound : (TokenCursor.closing tokens).length ≤ bound) :
    ∃ after, nodes tags bound false (.ofTokens tokens) =
        some (parseNodes tags (.ofTokens tokens), after) ∧
      (TokenCursor.ofTokens tokens).Reaches after := by
  have hlimit : (TokenCursor.ofTokens tokens).left < bound := by
    have hinside : 0 < (TokenCursor.closing tokens).length := (TokenCursor.ofTokens tokens).inside
    exact Nat.lt_of_lt_of_le (Nat.sub_lt hinside Nat.one_pos) hbound
  have hfollows := gathering_nodes tags bound false (.ofTokens tokens) _ hlimit (Nat.le_refl _)
  rw [← depthBound_stream, TokenCursor.stream_ofTokens] at hfollows
  unfold parseNodes
  generalize nodes tags bound false (.ofTokens tokens) = outcome at hfollows ⊢
  generalize Node.readNodes tags false _ _ = result at hfollows ⊢
  cases hfollows with
  | ok hreach hgathers =>
      obtain ⟨found, rfl, rfl⟩ := hgathers
      rw [← TokenCursor.current_stream, TokenCursor.stream_ofTokens]
      exact ⟨_, rfl, hreach⟩
  | error hreach => exact ⟨_, rfl, hreach⟩

/-- Whatever the tokens are, parsing them ends in an answer as soon as the bound is the number of
tokens, and a higher bound does not change it; the answer is the one of the reader.  No part of
the parser goes back, an expression that is read and a turn of a loop that is followed by another
one have gone forward, and a cursor is always on a token. -/
theorem parsing_ends (tags : List BlockTag) (bound : Nat) :
    (∀ tokens, (TokenCursor.closing tokens).length ≤ bound →
      ∃ after, nodes tags bound false (.ofTokens tokens) =
          some (parseNodes tags (.ofTokens tokens), after) ∧
        (TokenCursor.ofTokens tokens).Reaches after) ∧
    (∀ cursor, cursor.left < bound → Progress tags bound cursor) ∧
    (∀ cursor, cursor.left ≤ bound → ∀ inside found,
      Advances goesOn
        (nodeTurn (expression bound) (nodes tags bound true) tags inside bound found) cursor) ∧
    ∀ cursor : TokenCursor, cursor.tokens[cursor.position]? = some cursor.current := by
  refine ⟨fun tokens hbound => nodes_eq_parseNodes tags tokens hbound, fun cursor => progress, ?_,
    TokenCursor.getElem?_position⟩
  intro cursor hle inside found
  have hturn := turns_node (parses_expression bound) (gathering_nodes tags bound true) inside
  exact hturn.advances (Nat.lt_succ_of_le hle) found

/-- Parsing ends at the first end of the template, though tokens may follow it. -/
example : (nodes [] 4 false (.ofTokens [⟨.text "a", 1⟩, ⟨.eof, 1⟩, ⟨.text "b", 2⟩])).map (·.1) =
    some (.ok (.text "a" 1)) := by
  rfl

end Parse

end TemplateMessages.Template

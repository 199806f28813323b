import TemplateMessages.Proofs.TagGrammar

/-!
# The parts of a trans tag as they are read

The clauses of a tag are read as far as they are written, each up to a word or a
delimiter that no expression goes on with.  The message and the sections are read
as whole templates are, so their reader also passes nested tags, prints and
several nodes.  None of these is a literal: what counts as one is a single node,
read from a single text or print.
-/

namespace TemplateMessages.Template

open Grammar

/-! ## Tokens without a value -/

theorem Token.isName_iff {token : Token} {word : String} :
    token.isName word = true ↔ token.kind = .name word := by
  rw [isName, beq_iff_eq, name?_eq_some_iff]

/-- An expression ends in front of anything but punctuation. -/
theorem Ends.of_not_punct {bare : Bool} {rest : TokenStream}
    (hkind : ∀ mark, rest.current.kind ≠ .punct mark) : Ends bare rest where
  noBar := hkind '|'
  noList := fun _ => hkind '('

namespace TokenStream

variable {stream rest : TokenStream} {token : Token}

/-- A token that is expected for its kind alone stands in front. -/
theorem exists_of_expect {kind : TokenKind} (hexpect : stream.expect kind = .ok (token, rest))
    (halone : ∀ found, kind.fits found = true → found = kind) (hmore : kind ≠ .eof) :
    ∃ line, stream = rest.prepend [⟨kind, line⟩] := by
  unfold expect at hexpect
  dsimp only at hexpect
  split at hexpect
  case isTrue hfits =>
    obtain rfl : stream.advance = rest := congrArg Prod.snd (Except.ok.inj hexpect)
    obtain ⟨line, next, rfl⟩ := exists_front (halone _ hfits) hmore
    exact ⟨line, rfl⟩
  case isFalse => cases hexpect

theorem exists_of_expect_blockEnd (hexpect : stream.expect .blockEnd = .ok (token, rest)) :
    ∃ line, stream = rest.prepend [⟨.blockEnd, line⟩] :=
  exists_of_expect hexpect (fun found hfits => by cases found <;> first | rfl | cases hfits) nofun

theorem exists_of_expect_varEnd (hexpect : stream.expect .varEnd = .ok (token, rest)) :
    ∃ line, stream = rest.prepend [⟨.varEnd, line⟩] :=
  exists_of_expect hexpect (fun found hfits => by cases found <;> first | rfl | cases hfits) nofun

theorem expect_prepend_blockEnd (rest : TokenStream) (line : Nat) (tokens : List Token) :
    (rest.prepend (⟨.blockEnd, line⟩ :: tokens)).expect .blockEnd =
      .ok (⟨.blockEnd, line⟩, rest.prepend tokens) := rfl

end TokenStream

namespace Node

variable {blocks : List BlockTag} {line bound : Nat} {stream rest : TokenStream}

/-! ## Clauses -/

theorem exists_of_readClause {word : String} {clause : Option Expr}
    (hread : readClause word stream = .ok (clause, rest)) :
    ∃ tokens, stream = rest.prepend tokens ∧ Clause word tokens clause := by
  unfold readClause at hread
  split at hread
  case isTrue hname =>
    obtain ⟨line, next, rfl⟩ := TokenStream.exists_front (Token.isName_iff.mp hname) nofun
    obtain ⟨⟨expr, behind⟩, hexpr, hread⟩ := bind_eq_ok.mp hread
    obtain ⟨rfl, rfl⟩ := Prod.mk.inj (Except.ok.inj hread)
    obtain ⟨tokens, bare, hnext, hderives, -⟩ :=
      parseExpression_eq_ok_iff.mp (reading_eq_ok.mp hexpr)
    refine ⟨⟨.name word, line⟩ :: tokens, ?_, .present hderives⟩
    obtain rfl : next = behind.prepend tokens := hnext
    rfl
  case isFalse =>
    obtain ⟨rfl, rfl⟩ := Prod.mk.inj (Except.ok.inj hread)
    exact ⟨[], rfl, .absent⟩

/-- A clause is read from any stream that goes on with another word or a delimiter. -/
theorem readClause_prepend {word : String} {tokens : List Token} {clause : Option Expr}
    (hclause : Clause word tokens clause) (hother : rest.current.kind ≠ .name word)
    (hpunct : ∀ mark, rest.current.kind ≠ .punct mark) :
    readClause word (rest.prepend tokens) = .ok (clause, rest) := by
  cases hclause with
  | absent => rw [TokenStream.prepend_nil, readClause, if_neg (mt Token.isName_iff.mp hother)]
  | present hexpr =>
      have hparse := parseExpression_eq_ok_iff.mpr ⟨_, _, rfl, hexpr, .of_not_punct hpunct⟩
      rw [readClause, if_pos (Token.isName_iff.mpr rfl), TokenStream.advance_prepend_cons, hparse]
      rfl

/-- What may stand behind a clause: the word of a later one, or the end of the block. -/
theorem kind_current_prepend_clause {word : String} {tokens : List Token} {clause : Option Expr}
    (hclause : Clause word tokens clause) (rest : TokenStream) :
    (rest.prepend tokens).current.kind = .name word ∨
      (rest.prepend tokens).current.kind = rest.current.kind := by
  cases hclause with
  | absent => exact .inr rfl
  | present => exact .inl rfl

theorem exists_of_readClauses {count vars domain : Option Expr}
    (hread : readClauses stream = .ok ((count, vars, domain), rest)) :
    ∃ counted mapped sourced headEnd,
      stream = rest.prepend (counted ++ mapped ++ sourced ++ [⟨.blockEnd, headEnd⟩]) ∧
        Clause "count" counted count ∧ Clause "with" mapped vars ∧ Clause "from" sourced domain := by
  obtain ⟨⟨_, afterCount⟩, hcount, hread⟩ := bind_eq_ok.mp hread
  obtain ⟨⟨_, afterVars⟩, hvars, hread⟩ := bind_eq_ok.mp hread
  obtain ⟨⟨_, afterDomain⟩, hdomain, hread⟩ := bind_eq_ok.mp hread
  dsimp only at hread
  split at hread
  case isTrue => cases hread
  case isFalse =>
    split at hread
    case isTrue => cases hread
    case isFalse hend =>
      cases hread
      obtain ⟨counted, rfl, hcounted⟩ := exists_of_readClause hcount
      obtain ⟨mapped, rfl, hmapped⟩ := exists_of_readClause hvars
      obtain ⟨sourced, rfl, hsourced⟩ := exists_of_readClause hdomain
      have hkind : afterDomain.current.kind = .blockEnd := by
        simpa [Token.isBlockEnd] using hend
      obtain ⟨headEnd, next, rfl⟩ := TokenStream.exists_front hkind nofun
      refine ⟨counted, mapped, sourced, headEnd, ?_, hcounted, hmapped, hsourced⟩
      simp only [TokenStream.prepend_append]
      rfl

theorem readClauses_prepend {counted mapped sourced : List Token} {count vars domain : Option Expr}
    (hcounted : Clause "count" counted count) (hmapped : Clause "with" mapped vars)
    (hsourced : Clause "from" sourced domain) (rest : TokenStream) (headEnd : Nat)
    (tokens : List Token) :
    readClauses (rest.prepend (counted ++ mapped ++ sourced ++ ⟨.blockEnd, headEnd⟩ :: tokens)) =
      .ok ((count, vars, domain), rest.prepend tokens) := by
  let atEnd := rest.prepend (⟨.blockEnd, headEnd⟩ :: tokens)
  have hend : atEnd.current.kind = .blockEnd := rfl
  have hafterDomain := kind_current_prepend_clause hsourced atEnd
  have hafterVars := kind_current_prepend_clause hmapped (atEnd.prepend sourced)
  rw [hend] at hafterDomain
  have hcount : readClause "count" ((atEnd.prepend sourced).prepend mapped |>.prepend counted) =
      .ok (count, (atEnd.prepend sourced).prepend mapped) := by
    apply readClause_prepend hcounted <;>
      rcases hafterVars with h | h <;> rw [h] <;> rcases hafterDomain with h | h <;> simp [h]
  have hvars : readClause "with" ((atEnd.prepend sourced).prepend mapped) =
      .ok (vars, atEnd.prepend sourced) := by
    apply readClause_prepend hmapped <;> rcases hafterDomain with h | h <;> simp [h]
  have hdomain : readClause "from" (atEnd.prepend sourced) = .ok (domain, atEnd) := by
    apply readClause_prepend hsourced <;> simp [hend]
  simp only [TokenStream.prepend_append]
  show readClauses ((atEnd.prepend sourced).prepend mapped |>.prepend counted) = _
  unfold readClauses
  rw [hcount, ok_bind]
  dsimp only
  rw [hvars, ok_bind]
  dsimp only
  rw [hdomain, ok_bind]
  rfl

/-! ## Literals -/

/-- No block tag is a literal. -/
theorem literal?_of_readTag {tag : BlockTag} {node : Node}
    (hread : readTag blocks tag line bound stream = .ok (node, rest)) : node.literal? = none := by
  cases bound with
  | zero => simp [readTag] at hread
  | succ bound =>
      cases tag with
      | set =>
          rw [readTag, reading_eq_ok] at hread
          obtain ⟨_, _, hread⟩ := bind_eq_ok.mp hread
          obtain ⟨_, _, hread⟩ := bind_eq_ok.mp hread
          obtain ⟨_, _, hread⟩ := bind_eq_ok.mp hread
          obtain ⟨_, _, hread⟩ := bind_eq_ok.mp hread
          cases hread
          rfl
      | defaultDomain =>
          rw [readTag, reading_eq_ok] at hread
          obtain ⟨_, _, hread⟩ := bind_eq_ok.mp hread
          obtain ⟨_, _, hread⟩ := bind_eq_ok.mp hread
          cases hread
          rfl
      | trans =>
          rw [readTag] at hread
          obtain ⟨_, _, hread⟩ := bind_eq_ok.mp hread
          obtain ⟨_, _, hread⟩ := bind_eq_ok.mp hread
          dsimp only at hread
          split at hread
          case h_1 =>
            obtain ⟨_, _, hread⟩ := bind_eq_ok.mp hread
            obtain ⟨_, _, hread⟩ := bind_eq_ok.mp hread
            obtain ⟨_, _, hread⟩ := bind_eq_ok.mp hread
            cases hread
            rfl
          case h_2 => cases hread

theorem literal?_ofNodes_eq_some_iff {nodes : List Node} {text : String} :
    (ofNodes nodes line).literal? = some text ↔ ∃ node, nodes = [node] ∧ node.literal? = some text := by
  unfold ofNodes
  split
  case h_1 node => simp
  case h_2 hmany =>
    constructor
    · nofun
    · rintro ⟨node, rfl, -⟩
      exact absurd rfl (hmany node)

/-- The literal of a print is derived by its expression. -/
theorem literal_of_print {expr : Expr} {tokens : List Token} {bare : Bool} {text : String}
    (hexpr : Expression tokens expr bare) (htext : (print expr line).literal? = some text)
    (opened closed : Nat) :
    Literal (⟨.varStart, opened⟩ :: (tokens ++ [⟨.varEnd, closed⟩])) text := by
  cases expr with
  | constant value =>
      cases value with
      | string value =>
          obtain rfl : value = text := Option.some.inj htext
          exact .string hexpr
      | number value =>
          obtain rfl : value.text = text := Option.some.inj htext
          exact .number hexpr
      | _ => cases htext
  | _ => cases htext

/-- What the reader of a part of a tag has passed when it is done, by the first thing that is there. -/
inductive Passed (blocks : List BlockTag) (rest : TokenStream) : TokenStream → List Node → Prop
  | close {opened : Nat} : Passed blocks rest (rest.prepend [⟨.blockStart, opened⟩]) []
  | text {data : String} {line bound : Nat} {behind : TokenStream} {nodes : List Node} :
      readNodes blocks true bound behind = .ok (nodes, rest) →
      Passed blocks rest (behind.prepend [⟨.text data, line⟩]) (.text data line :: nodes)
  | print {expr : Expr} {opened closed bound : Nat} {inside behind : TokenStream}
      {nodes : List Node} :
      parseExpression inside = .ok (expr, behind.prepend [⟨.varEnd, closed⟩]) →
      readNodes blocks true bound behind = .ok (nodes, rest) →
      Passed blocks rest (inside.prepend [⟨.varStart, opened⟩]) (.print expr opened :: nodes)
  | tag {tag : BlockTag} {name : String} {node : Node} {opened line bound : Nat}
      {inside behind : TokenStream} {nodes : List Node} :
      readTag blocks tag line bound inside = .ok (node, behind) →
      readNodes blocks true bound behind = .ok (nodes, rest) →
      Passed blocks rest (inside.prepend [⟨.blockStart, opened⟩, ⟨.name name, line⟩]) (node :: nodes)

theorem passed_of_readNodes {nodes : List Node}
    (hread : readNodes blocks true bound stream = .ok (nodes, rest)) :
    Passed blocks rest stream nodes := by
  cases bound with
  | zero => simp [readNodes] at hread
  | succ bound =>
      rw [readNodes] at hread
      dsimp only at hread
      split at hread
      case h_1 data hkind =>
        obtain ⟨line, next, rfl⟩ := TokenStream.exists_front hkind nofun
        obtain ⟨_, hnodes, hread⟩ := bind_eq_ok.mp hread
        cases hread
        exact .text hnodes
      case h_2 hkind =>
        obtain ⟨opened, next, rfl⟩ := TokenStream.exists_front hkind nofun
        obtain ⟨⟨expr, afterExpr⟩, hexpr, hread⟩ := bind_eq_ok.mp hread
        obtain ⟨_, hend, hread⟩ := bind_eq_ok.mp hread
        obtain ⟨_, hnodes, hread⟩ := bind_eq_ok.mp hread
        cases hread
        obtain ⟨closed, rfl⟩ := TokenStream.exists_of_expect_varEnd (reading_eq_ok.mp hend)
        exact .print (reading_eq_ok.mp hexpr) hnodes
      case h_3 hkind =>
        obtain ⟨opened, next, rfl⟩ := TokenStream.exists_front hkind nofun
        split at hread
        case h_1 => cases hread
        case h_2 name hname =>
          split at hread
          case isTrue =>
            obtain rfl : next = rest := congrArg Prod.snd (Except.ok.inj hread)
            cases hread
            exact .close
          case isFalse =>
            split at hread
            case h_1 => cases hread
            case h_2 =>
              have hword : next.current.kind = .name name := Token.name?_eq_some_iff.mp hname
              obtain ⟨line, inside, rfl⟩ := TokenStream.exists_front hword nofun
              obtain ⟨_, htag, hread⟩ := bind_eq_ok.mp hread
              obtain ⟨_, hnodes, hread⟩ := bind_eq_ok.mp hread
              cases hread
              exact .tag htag hnodes
      case h_4 => cases hread
      case h_5 => cases hread

/-- Without a node the reader has only passed the opener of the block that ends the part. -/
theorem exists_of_readNodes_nil (hread : readNodes blocks true bound stream = .ok ([], rest)) :
    ∃ opened, stream = rest.prepend [⟨.blockStart, opened⟩] := by
  cases passed_of_readNodes hread with
  | close => exact ⟨_, rfl⟩

/-- The part of a tag whose only node is a literal is derived by that literal. -/
theorem exists_of_readNodes_literal {nodes : List Node} {text : String} {textLine : Nat}
    (hread : readNodes blocks true bound stream = .ok (nodes, rest))
    (htext : (ofNodes nodes textLine).literal? = some text) :
    ∃ tokens opened, stream = rest.prepend (tokens ++ [⟨.blockStart, opened⟩]) ∧
      Literal tokens text := by
  obtain ⟨node, rfl, hnode⟩ := literal?_ofNodes_eq_some_iff.mp htext
  cases passed_of_readNodes hread with
  | @text data line _ _ _ hnodes =>
      obtain ⟨opened, rfl⟩ := exists_of_readNodes_nil hnodes
      obtain rfl : data = text := Option.some.inj hnode
      exact ⟨[⟨.text data, line⟩], opened, rfl, .text⟩
  | @print expr first closed _ inside _ _ hexpr hnodes =>
      obtain ⟨opened, rfl⟩ := exists_of_readNodes_nil hnodes
      obtain ⟨tokens, bare, rfl, hderives, -⟩ := parseExpression_eq_ok_iff.mp hexpr
      refine ⟨_, opened, ?_, literal_of_print hderives hnode first closed⟩
      simp [TokenStream.prepend]
  | tag htag =>
      rw [literal?_of_readTag htag] at hnode
      cases hnode

theorem readNodes_opener (blocks : List BlockTag) {word : String} (hword : word ∈ partEnds)
    (hkind : rest.current.kind = .name word) (opened : Nat) :
    readNodes blocks true (bound + 1) (rest.prepend [⟨.blockStart, opened⟩]) = .ok ([], rest) := by
  have hname : rest.current.name? = some word := Token.name?_eq_some_iff.mpr hkind
  have hcontains : partEnds.contains word = true := List.contains_iff_mem.mpr hword
  rw [readNodes]
  simp only [TokenStream.current_prepend_cons, TokenStream.advance_prepend_cons,
    TokenStream.prepend_nil, hname, hcontains, Bool.true_and, if_true]

theorem exists_readNodes_literal (blocks : List BlockTag) {tokens : List Token} {text word : String}
    (hliteral : Literal tokens text) (hword : word ∈ partEnds)
    (hkind : rest.current.kind = .name word) (opened : Nat) (hbound : 2 ≤ bound) :
    ∃ node : Node, node.literal? = some text ∧
      readNodes blocks true bound (rest.prepend (tokens ++ [⟨.blockStart, opened⟩])) =
        .ok ([node], rest) := by
  obtain ⟨bound, rfl⟩ := Nat.exists_eq_add_of_le' hbound
  have hend : readNodes blocks true (bound + 1) (rest.prepend [⟨.blockStart, opened⟩]) =
      .ok ([], rest) := readNodes_opener blocks hword hkind opened
  have hprint : ∀ {expr : Expr} {tokens : List Token} {bare : Bool} (first closed : Nat),
      Expression tokens expr bare →
      readNodes blocks true (bound + 2) (rest.prepend ((⟨.varStart, first⟩ ::
        (tokens ++ [⟨.varEnd, closed⟩])) ++ [⟨.blockStart, opened⟩])) =
          .ok ([.print expr first], rest) := by
    intro expr tokens bare first closed hexpr
    have hparse : parseExpression ((rest.prepend [⟨.varEnd, closed⟩, ⟨.blockStart, opened⟩]).prepend
        tokens) = .ok (expr, rest.prepend [⟨.varEnd, closed⟩, ⟨.blockStart, opened⟩]) :=
      parseExpression_eq_ok_iff.mpr ⟨_, _, rfl, hexpr, .of_not_punct nofun⟩
    rw [List.cons_append, List.append_assoc, List.singleton_append, readNodes]
    simp only [TokenStream.current_prepend_cons, TokenStream.advance_prepend_cons,
      TokenStream.prepend_append, hparse]
    show (readNodes blocks true (bound + 1) (rest.prepend [⟨.blockStart, opened⟩]) >>= _) = _
    rw [hend]
    rfl
  cases hliteral with
  | @text _ line =>
      refine ⟨.text text line, rfl, ?_⟩
      rw [List.singleton_append, readNodes]
      simp only [TokenStream.current_prepend_cons, TokenStream.advance_prepend_cons, hend, ok_bind]
      rfl
  | string hexpr => exact ⟨.print _ _, rfl, hprint _ _ hexpr⟩
  | number hexpr => exact ⟨.print _ _, rfl, hprint _ _ hexpr⟩

end Node

end TemplateMessages.Template

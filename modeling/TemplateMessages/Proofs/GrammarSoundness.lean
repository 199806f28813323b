import TemplateMessages.Proofs.ExpressionGrammar
import TemplateMessages.Proofs.TokenFronts

/-!
# What the readers of expressions accept

Whatever tree a reader answers with, the tokens that it has passed derive it.  An
expression is read as far as it goes: no bar follows it, and no opening
parenthesis when it ends in a filter without arguments.
-/

namespace TemplateMessages.Template

open Grammar

/-- The stream does not go on with the expression in front of it, which may end in a filter without
an argument list. -/
structure Ends (bare : Bool) (rest : TokenStream) : Prop where
  noBar : rest.current.kind ≠ .punct '|'
  noList : bare = true → rest.current.kind ≠ .punct '('

namespace Expr

/-- What the readers accept with a bound on their recursion. -/
structure ReadersSound (bound : Nat) : Prop where
  expression : ∀ {stream rest : TokenStream} {expr : Expr},
    readExpression bound stream = .ok (expr, rest) →
      ∃ tokens bare, stream = rest.prepend tokens ∧ Expression tokens expr bare ∧ Ends bare rest
  -- The subject is derived by the tokens in front of the stream, which are passed already.
  filters : ∀ {stream rest : TokenStream} {front : List Token} {subject expr : Expr} {bare : Bool},
    readFilters bound subject stream = .ok (expr, rest) → Expression front subject bare →
      (bare = true → stream.current.kind ≠ .punct '(') →
      ∃ tokens bare, stream = rest.prepend tokens ∧ Expression (front ++ tokens) expr bare ∧
        Ends bare rest
  primary : ∀ {stream rest : TokenStream} {expr : Expr},
    readPrimary bound stream = .ok (expr, rest) →
      ∃ tokens, stream = rest.prepend tokens ∧ Primary tokens expr
  items : ∀ {stream rest : TokenStream} {items : List Expr},
    readItems bound stream = .ok (items, rest) →
      ∃ list closed, stream = rest.prepend (list ++ [⟨.punct ']', closed⟩]) ∧ Items list items
  entries : ∀ {stream rest : TokenStream} {entries : List (Expr × Expr)},
    readEntries bound stream = .ok (entries, rest) →
      ∃ list closed, stream = rest.prepend (list ++ [⟨.punct '}', closed⟩]) ∧ Entries list entries
  key : ∀ {stream rest : TokenStream} {key : Expr},
    readKey bound stream = .ok (key, rest) →
      ∃ tokens, stream = rest.prepend tokens ∧ Key tokens key
  arguments : ∀ {stream rest : TokenStream} {arguments : List (Argument Expr)},
    readArguments bound stream = .ok (arguments, rest) →
      ∃ list closed, stream = rest.prepend (list ++ [⟨.punct ')', closed⟩]) ∧
        Arguments list arguments
  argumentList : ∀ {stream rest : TokenStream} {arguments : List (Argument Expr)},
    readArgumentList bound stream = .ok (arguments, rest) →
      ∃ list closed, stream = rest.prepend (list ++ [⟨.punct ')', closed⟩]) ∧
        ArgumentList list arguments

/-- A reader that is given no depth accepts nothing. -/
theorem ReadersSound.zero : ReadersSound 0 where
  expression := by simp [readExpression]
  filters := by simp [readFilters]
  primary := by simp [readPrimary]
  items := by simp [readItems]
  entries := by simp [readEntries]
  key := by simp [readKey]
  arguments := by simp [readArguments]
  argumentList := by simp [readArgumentList]

/-- A name stands for the constant of that name, or else for a variable. -/
theorem primary_ofWord (word : String) (line : Nat) :
    Primary [⟨.name word, line⟩] (ofWord word) := by
  unfold ofWord
  split
  case h_1 => exact .constant (by simp [constantWords])
  case h_2 => exact .constant (by simp [constantWords])
  case h_3 => exact .constant (by simp [constantWords])
  case h_4 => exact .constant (by simp [constantWords])
  case h_5 htrue hfalse hnull hnone =>
    apply Primary.name
    simp only [constantWords, List.map_cons, List.map_nil, List.mem_cons, List.not_mem_nil, or_false]
    rintro (rfl | rfl | rfl | rfl)
    · exact htrue rfl
    · exact hfalse rfl
    · exact hnull rfl
    · exact hnone rfl

/-- A named argument starts with its name and a mark. -/
theorem exists_of_startsNamedArgument {stream : TokenStream}
    (hnamed : startsNamedArgument stream = true) :
    ∃ word wordLine mark line next, (mark = '=' ∨ mark = ':') ∧
      stream = TokenStream.prepend next [⟨.name word, wordLine⟩, ⟨.punct mark, line⟩] := by
  unfold startsNamedArgument at hnamed
  rw [Bool.and_eq_true, Bool.or_eq_true] at hnamed
  obtain ⟨hname, hmark⟩ := hnamed
  obtain ⟨word, hword⟩ := Option.isSome_iff_exists.mp hname
  obtain ⟨wordLine, behind, rfl⟩ :=
    TokenStream.exists_front (Token.name?_eq_some_iff.mp hword) nofun
  rw [TokenStream.look_one_prepend_cons, TokenStream.prepend_nil] at hmark
  rcases hmark with hmark | hmark
  · obtain ⟨line, next, rfl⟩ := TokenStream.exists_front_of_isPunct hmark
    exact ⟨word, wordLine, '=', line, next, .inl rfl, rfl⟩
  · obtain ⟨line, next, rfl⟩ := TokenStream.exists_front_of_isPunct hmark
    exact ⟨word, wordLine, ':', line, next, .inr rfl, rfl⟩

namespace ReadersSound

variable {bound : Nat} {stream rest : TokenStream}

theorem expression_succ (hsound : ReadersSound bound) {expr : Expr}
    (hread : readExpression (bound + 1) stream = .ok (expr, rest)) :
    ∃ tokens bare, stream = rest.prepend tokens ∧ Expression tokens expr bare ∧ Ends bare rest := by
  obtain ⟨⟨subject, middle⟩, hsubject, hfilters⟩ := bind_eq_ok.mp hread
  obtain ⟨front, rfl, hprimary⟩ := hsound.primary hsubject
  obtain ⟨tokens, bare, rfl, hexpr, hends⟩ := hsound.filters hfilters (.primary hprimary) nofun
  exact ⟨front ++ tokens, bare, (rest.prepend_append front tokens).symm, hexpr, hends⟩

theorem filters_succ (hsound : ReadersSound bound) {front : List Token} {subject expr : Expr}
    {bare : Bool} (hread : readFilters (bound + 1) subject stream = .ok (expr, rest))
    (hsubject : Expression front subject bare)
    (hlist : bare = true → stream.current.kind ≠ .punct '(') :
    ∃ tokens bare, stream = rest.prepend tokens ∧ Expression (front ++ tokens) expr bare ∧
      Ends bare rest := by
  rw [readFilters] at hread
  split at hread
  case isTrue hbar =>
    obtain ⟨line, next, rfl⟩ := TokenStream.exists_front_of_isPunct hbar
    obtain ⟨⟨word, behind⟩, hword, hbehind⟩ := bind_eq_ok.mp hread
    obtain ⟨wordLine, rfl⟩ : ∃ wordLine, next = behind.prepend [⟨.name word, wordLine⟩] :=
      TokenStream.exists_of_expectName hword
    dsimp only at hbehind
    split at hbehind
    case isTrue hmark =>
      obtain ⟨opened, inside, rfl⟩ := TokenStream.exists_front_of_isPunct hmark
      obtain ⟨⟨arguments, after⟩, harguments, hafter⟩ := bind_eq_ok.mp hbehind
      obtain ⟨list, closed, rfl, hderives⟩ : ∃ list closed,
          inside = after.prepend (list ++ [⟨.punct ')', closed⟩]) ∧ Arguments list arguments :=
        hsound.arguments harguments
      have hcall : Expression (front ++ ⟨.punct '|', line⟩ :: ⟨.name word, wordLine⟩ ::
          ⟨.punct '(', opened⟩ :: (list ++ [⟨.punct ')', closed⟩]))
          (.filter subject word arguments line) false := .call hsubject hderives
      obtain ⟨tokens, bare, rfl, hexpr, hends⟩ := hsound.filters hafter hcall nofun
      rw [List.append_assoc] at hexpr
      refine ⟨_, bare, ?_, hexpr, hends⟩
      simp [TokenStream.prepend]
    case isFalse hmark =>
      have hfilter : Expression (front ++ [⟨.punct '|', line⟩, ⟨.name word, wordLine⟩])
          (.filter subject word [] line) true := .filter hsubject
      have hnext : behind.current.kind ≠ .punct '(' := mt Token.isPunct_iff.mpr hmark
      obtain ⟨tokens, bare, rfl, hexpr, hends⟩ := hsound.filters hbehind hfilter fun _ => hnext
      rw [List.append_assoc] at hexpr
      refine ⟨_, bare, ?_, hexpr, hends⟩
      simp [TokenStream.prepend]
  case isFalse hbar =>
    obtain ⟨rfl, rfl⟩ := Prod.mk.inj (Except.ok.inj hread)
    rw [← List.append_nil front] at hsubject
    exact ⟨[], bare, rfl, hsubject, mt Token.isPunct_iff.mpr hbar, hlist⟩

/-- What stands between two parentheses. -/
theorem exists_group (hsound : ReadersSound bound) {expr : Expr} {middle : TokenStream}
    (hopened : stream.current.kind = .punct '(')
    (hread : readExpression bound stream.advance = .ok (expr, middle))
    (hclosed : middle.expectPunct ')' = .ok rest) :
    ∃ tokens bare opened closed,
      stream = rest.prepend (⟨.punct '(', opened⟩ :: (tokens ++ [⟨.punct ')', closed⟩])) ∧
        Expression tokens expr bare := by
  obtain ⟨opened, inside, rfl⟩ := TokenStream.exists_front hopened nofun
  obtain ⟨tokens, bare, rfl, hexpr, -⟩ : ∃ tokens bare,
      inside = middle.prepend tokens ∧ Expression tokens expr bare ∧ Ends bare middle :=
    hsound.expression hread
  obtain ⟨closed, rfl⟩ := TokenStream.exists_of_expectPunct hclosed
  refine ⟨tokens, bare, opened, closed, ?_, hexpr⟩
  simp [TokenStream.prepend]

theorem primary_succ (hsound : ReadersSound bound) {expr : Expr}
    (hread : readPrimary (bound + 1) stream = .ok (expr, rest)) :
    ∃ tokens, stream = rest.prepend tokens ∧ Primary tokens expr := by
  rw [readPrimary] at hread
  split at hread
  case h_1 word hkind =>
    obtain ⟨line, next, rfl⟩ := TokenStream.exists_front hkind nofun
    obtain ⟨rfl, rfl⟩ := Prod.mk.inj (Except.ok.inj hread)
    exact ⟨_, rfl, primary_ofWord word line⟩
  case h_2 value hkind =>
    obtain ⟨line, next, rfl⟩ := TokenStream.exists_front hkind nofun
    obtain ⟨rfl, rfl⟩ := Prod.mk.inj (Except.ok.inj hread)
    exact ⟨_, rfl, .number⟩
  case h_3 value hkind =>
    obtain ⟨line, next, rfl⟩ := TokenStream.exists_front hkind nofun
    obtain ⟨rfl, rfl⟩ := Prod.mk.inj (Except.ok.inj hread)
    exact ⟨_, rfl, .string⟩
  case h_4 hkind =>
    obtain ⟨opened, inside, rfl⟩ := TokenStream.exists_front hkind nofun
    obtain ⟨⟨items, after⟩, hitems, hafter⟩ := bind_eq_ok.mp hread
    obtain ⟨rfl, rfl⟩ := Prod.mk.inj (Except.ok.inj hafter)
    obtain ⟨list, closed, rfl, hderives⟩ : ∃ list closed,
        inside = after.prepend (list ++ [⟨.punct ']', closed⟩]) ∧ Items list items :=
      hsound.items hitems
    exact ⟨_, rfl, .array hderives⟩
  case h_5 hkind =>
    obtain ⟨opened, inside, rfl⟩ := TokenStream.exists_front hkind nofun
    obtain ⟨⟨entries, after⟩, hentries, hafter⟩ := bind_eq_ok.mp hread
    obtain ⟨rfl, rfl⟩ := Prod.mk.inj (Except.ok.inj hafter)
    obtain ⟨list, closed, rfl, hderives⟩ : ∃ list closed,
        inside = after.prepend (list ++ [⟨.punct '}', closed⟩]) ∧ Entries list entries :=
      hsound.entries hentries
    exact ⟨_, rfl, .map hderives⟩
  case h_6 hkind =>
    obtain ⟨⟨inner, after⟩, hinner, hafter⟩ := bind_eq_ok.mp hread
    obtain ⟨last, hlast, hresult⟩ := bind_eq_ok.mp hafter
    obtain ⟨rfl, rfl⟩ := Prod.mk.inj (Except.ok.inj hresult)
    obtain ⟨tokens, bare, opened, closed, hstream, hexpr⟩ := hsound.exists_group hkind hinner hlast
    exact ⟨_, hstream, .group hexpr⟩
  case h_7 => cases hread

theorem items_succ (hsound : ReadersSound bound) {items : List Expr}
    (hread : readItems (bound + 1) stream = .ok (items, rest)) :
    ∃ list closed, stream = rest.prepend (list ++ [⟨.punct ']', closed⟩]) ∧ Items list items := by
  rw [readItems] at hread
  split at hread
  case isTrue hmark =>
    obtain ⟨closed, next, rfl⟩ := TokenStream.exists_front_of_isPunct hmark
    obtain ⟨rfl, rfl⟩ := Prod.mk.inj (Except.ok.inj hread)
    exact ⟨[], closed, rfl, .nil⟩
  case isFalse =>
    obtain ⟨⟨item, after⟩, hitem, hafter⟩ := bind_eq_ok.mp hread
    obtain ⟨tokens, bare, rfl, hexpr, -⟩ := hsound.expression hitem
    dsimp only at hafter
    split at hafter
    case isTrue hmark =>
      obtain ⟨closed, next, rfl⟩ := TokenStream.exists_front_of_isPunct hmark
      obtain ⟨rfl, rfl⟩ := Prod.mk.inj (Except.ok.inj hafter)
      exact ⟨tokens, closed, (TokenStream.prepend_append _ _ _).symm, .last hexpr⟩
    case isFalse =>
      obtain ⟨next, hcomma, hnext⟩ := bind_eq_ok.mp hafter
      obtain ⟨⟨others, last⟩, hothers, hresult⟩ := bind_eq_ok.mp hnext
      obtain ⟨rfl, rfl⟩ := Prod.mk.inj (Except.ok.inj hresult)
      obtain ⟨comma, rfl⟩ := TokenStream.exists_of_expectPunct hcomma
      obtain ⟨list, closed, rfl, hderives⟩ := hsound.items hothers
      refine ⟨tokens ++ ⟨.punct ',', comma⟩ :: list, closed, ?_, .cons hexpr hderives⟩
      simp [TokenStream.prepend]

theorem entries_succ (hsound : ReadersSound bound) {entries : List (Expr × Expr)}
    (hread : readEntries (bound + 1) stream = .ok (entries, rest)) :
    ∃ list closed, stream = rest.prepend (list ++ [⟨.punct '}', closed⟩]) ∧ Entries list entries := by
  rw [readEntries] at hread
  split at hread
  case isTrue hmark =>
    obtain ⟨closed, next, rfl⟩ := TokenStream.exists_front_of_isPunct hmark
    obtain ⟨rfl, rfl⟩ := Prod.mk.inj (Except.ok.inj hread)
    exact ⟨[], closed, rfl, .nil⟩
  case isFalse =>
    obtain ⟨⟨key, afterKey⟩, hkey, hbehindKey⟩ := bind_eq_ok.mp hread
    obtain ⟨afterColon, hcolon, hbehindColon⟩ := bind_eq_ok.mp hbehindKey
    obtain ⟨⟨value, after⟩, hvalue, hafter⟩ := bind_eq_ok.mp hbehindColon
    obtain ⟨keyTokens, rfl, hkeyDerives⟩ := hsound.key hkey
    obtain ⟨colon, rfl⟩ := TokenStream.exists_of_expectPunct hcolon
    obtain ⟨tokens, bare, rfl, hexpr, -⟩ := hsound.expression hvalue
    have hentry : Entry (keyTokens ++ ⟨.punct ':', colon⟩ :: tokens) (key, value) :=
      .pair hkeyDerives hexpr
    dsimp only at hafter
    split at hafter
    case isTrue hmark =>
      obtain ⟨closed, next, rfl⟩ := TokenStream.exists_front_of_isPunct hmark
      obtain ⟨rfl, rfl⟩ := Prod.mk.inj (Except.ok.inj hafter)
      refine ⟨keyTokens ++ ⟨.punct ':', colon⟩ :: tokens, closed, ?_, .last hentry⟩
      simp [TokenStream.prepend, TokenStream.advance]
    case isFalse =>
      obtain ⟨next, hcomma, hnext⟩ := bind_eq_ok.mp hafter
      obtain ⟨⟨others, last⟩, hothers, hresult⟩ := bind_eq_ok.mp hnext
      obtain ⟨rfl, rfl⟩ := Prod.mk.inj (Except.ok.inj hresult)
      obtain ⟨comma, rfl⟩ := TokenStream.exists_of_expectPunct hcomma
      obtain ⟨list, closed, rfl, hderives⟩ := hsound.entries hothers
      refine ⟨keyTokens ++ ⟨.punct ':', colon⟩ :: tokens ++ ⟨.punct ',', comma⟩ :: list, closed, ?_,
        .cons hentry hderives⟩
      simp [TokenStream.prepend]

theorem key_succ (hsound : ReadersSound bound) {key : Expr}
    (hread : readKey (bound + 1) stream = .ok (key, rest)) :
    ∃ tokens, stream = rest.prepend tokens ∧ Key tokens key := by
  rw [readKey] at hread
  split at hread
  case h_1 value hkind =>
    obtain ⟨line, next, rfl⟩ := TokenStream.exists_front hkind nofun
    obtain ⟨rfl, rfl⟩ := Prod.mk.inj (Except.ok.inj hread)
    exact ⟨_, rfl, .string⟩
  case h_2 word hkind =>
    obtain ⟨line, next, rfl⟩ := TokenStream.exists_front hkind nofun
    obtain ⟨rfl, rfl⟩ := Prod.mk.inj (Except.ok.inj hread)
    exact ⟨_, rfl, .name⟩
  case h_3 value hkind =>
    obtain ⟨line, next, rfl⟩ := TokenStream.exists_front hkind nofun
    obtain ⟨rfl, rfl⟩ := Prod.mk.inj (Except.ok.inj hread)
    exact ⟨_, rfl, .number⟩
  case h_4 hkind =>
    obtain ⟨⟨inner, after⟩, hinner, hafter⟩ := bind_eq_ok.mp hread
    obtain ⟨last, hlast, hresult⟩ := bind_eq_ok.mp hafter
    obtain ⟨rfl, rfl⟩ := Prod.mk.inj (Except.ok.inj hresult)
    obtain ⟨tokens, bare, opened, closed, hstream, hexpr⟩ := hsound.exists_group hkind hinner hlast
    exact ⟨_, hstream, .group hexpr⟩
  case h_5 => cases hread

theorem arguments_succ (hsound : ReadersSound bound) {arguments : List (Argument Expr)}
    (hread : readArguments (bound + 1) stream = .ok (arguments, rest)) :
    ∃ list closed, stream = rest.prepend (list ++ [⟨.punct ')', closed⟩]) ∧
      Arguments list arguments := by
  rw [readArguments] at hread
  split at hread
  case isTrue hmark =>
    obtain ⟨closed, next, rfl⟩ := TokenStream.exists_front_of_isPunct hmark
    obtain ⟨rfl, rfl⟩ := Prod.mk.inj (Except.ok.inj hread)
    exact ⟨[], closed, rfl, .nil⟩
  case isFalse =>
    obtain ⟨list, closed, hstream, hderives⟩ := hsound.argumentList hread
    exact ⟨list, closed, hstream, .list hderives⟩

/-- One argument, with its name or without. -/
theorem exists_argument (hsound : ReadersSound bound) {value : Expr}
    (hread : readExpression bound
      (if (if startsNamedArgument stream then stream.current.name? else none).isSome then
        stream.advance.advance else stream) = .ok (value, rest)) :
    ∃ tokens, stream = rest.prepend tokens ∧
      OneArgument tokens
        ⟨if startsNamedArgument stream then stream.current.name? else none, value⟩ := by
  cases hnamed : startsNamedArgument stream with
  | false =>
      rw [hnamed] at hread
      obtain ⟨tokens, bare, hstream, hexpr, -⟩ := hsound.expression hread
      exact ⟨tokens, hstream, .positional hexpr⟩
  | true =>
      obtain ⟨word, wordLine, mark, line, next, hmark, rfl⟩ := exists_of_startsNamedArgument hnamed
      rw [hnamed] at hread
      obtain ⟨tokens, bare, rfl, hexpr, -⟩ : ∃ tokens bare,
          next = rest.prepend tokens ∧ Expression tokens value bare ∧ Ends bare rest :=
        hsound.expression hread
      exact ⟨⟨.name word, wordLine⟩ :: ⟨.punct mark, line⟩ :: tokens, rfl, .named hmark hexpr⟩

theorem argumentList_succ (hsound : ReadersSound bound) {arguments : List (Argument Expr)}
    (hread : readArgumentList (bound + 1) stream = .ok (arguments, rest)) :
    ∃ list closed, stream = rest.prepend (list ++ [⟨.punct ')', closed⟩]) ∧
      ArgumentList list arguments := by
  rw [readArgumentList] at hread
  obtain ⟨⟨value, after⟩, hvalue, hafter⟩ := bind_eq_ok.mp hread
  obtain ⟨tokens, hstream, hargument⟩ := hsound.exists_argument hvalue
  dsimp only at hafter
  split at hafter
  case isTrue hmark =>
    obtain ⟨closed, next, rfl⟩ := TokenStream.exists_front_of_isPunct hmark
    obtain ⟨rfl, rfl⟩ := Prod.mk.inj (Except.ok.inj hafter)
    refine ⟨tokens, closed, ?_, .last hargument⟩
    rw [hstream, TokenStream.prepend_append]
    rfl
  case isFalse =>
    obtain ⟨next, hcomma, hnext⟩ := bind_eq_ok.mp hafter
    obtain ⟨⟨others, last⟩, hothers, hresult⟩ := bind_eq_ok.mp hnext
    obtain ⟨rfl, rfl⟩ := Prod.mk.inj (Except.ok.inj hresult)
    obtain ⟨comma, rfl⟩ := TokenStream.exists_of_expectPunct hcomma
    obtain ⟨list, closed, rfl, hderives⟩ := hsound.argumentList hothers
    refine ⟨tokens ++ ⟨.punct ',', comma⟩ :: list, closed, ?_, .cons hargument hderives⟩
    rw [hstream]
    simp [TokenStream.prepend]

end ReadersSound

theorem readersSound (bound : Nat) : ReadersSound bound := by
  induction bound with
  | zero => exact .zero
  | succ bound ih =>
      exact
        { expression := ih.expression_succ
          filters := ih.filters_succ
          primary := ih.primary_succ
          items := ih.items_succ
          entries := ih.entries_succ
          key := ih.key_succ
          arguments := ih.arguments_succ
          argumentList := ih.argumentList_succ }

end Expr

end TemplateMessages.Template

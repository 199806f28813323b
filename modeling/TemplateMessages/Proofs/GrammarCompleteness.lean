import TemplateMessages.Proofs.GrammarSoundness

/-!
# The readers of expressions accept the grammar

Tokens that derive an expression are read as that expression, from any stream
that does not go on with it.  The bound on the recursion is enough because a
reader that comes back to itself has passed a token, and four readers at most lie
between two turns.
-/

namespace TemplateMessages.Template

open Grammar

/-- Punctuation other than a bar and an opening parenthesis ends every expression. -/
theorem Ends.of_mark {bare : Bool} {rest : TokenStream} {mark : Char}
    (hmark : rest.current.kind = .punct mark) (hother : mark ≠ '|' ∧ mark ≠ '(') :
    Ends bare rest where
  noBar := by
    intro hbar
    exact hother.1 (TokenKind.punct.inj (hmark.symm.trans hbar))
  noList := by
    intro _ hlist
    exact hother.2 (TokenKind.punct.inj (hmark.symm.trans hlist))

namespace Expr

/-! ## Steps of the readers -/

section Steps

variable {bound : Nat} {rest : TokenStream}

theorem ofWord_of_mem {word : String} {value : Value} (hword : (word, value) ∈ constantWords) :
    ofWord word = .constant value := by
  simp only [constantWords, List.mem_cons, Prod.mk.injEq, List.not_mem_nil, or_false] at hword
  rcases hword with ⟨rfl, rfl⟩ | ⟨rfl, rfl⟩ | ⟨rfl, rfl⟩ | ⟨rfl, rfl⟩ <;> rfl

theorem ofWord_of_notMem {word : String} (hword : word ∉ constantWords.map Prod.fst) :
    ofWord word = .name word := by
  unfold ofWord
  split
  case h_5 => rfl
  all_goals exact absurd hword (by decide)

/-- A reader stops in front of anything but a bar. -/
theorem readFilters_of_noBar (subject : Expr) (hbar : rest.current.kind ≠ .punct '|') :
    readFilters (bound + 1) subject rest = .ok (subject, rest) := by
  rw [readFilters, if_neg (mt Token.isPunct_iff.mp hbar)]

theorem readFilters_filter (subject : Expr) (word : String) (line wordLine : Nat)
    (hlist : rest.current.kind ≠ .punct '(') :
    readFilters (bound + 1) subject
        (rest.prepend [⟨.punct '|', line⟩, ⟨.name word, wordLine⟩]) =
      readFilters bound (.filter subject word [] line) rest := by
  rw [readFilters, if_pos (Token.isPunct_iff.mpr rfl), TokenStream.advance_prepend_cons,
    TokenStream.expectName_prepend_cons, ok_bind, TokenStream.prepend_nil]
  dsimp only
  rw [if_neg (mt Token.isPunct_iff.mp hlist), ok_bind]
  rfl

theorem readFilters_call (subject : Expr) (word : String) (line wordLine opened : Nat)
    {inside : TokenStream} {arguments : List (Argument Expr)}
    (harguments : readArguments bound inside = .ok (arguments, rest)) :
    readFilters (bound + 1) subject
        (inside.prepend [⟨.punct '|', line⟩, ⟨.name word, wordLine⟩, ⟨.punct '(', opened⟩]) =
      readFilters bound (.filter subject word arguments line) rest := by
  rw [readFilters, if_pos (Token.isPunct_iff.mpr rfl), TokenStream.advance_prepend_cons,
    TokenStream.expectName_prepend_cons, ok_bind]
  dsimp only
  rw [if_pos (Token.isPunct_iff.mpr rfl), TokenStream.advance_prepend_cons,
    TokenStream.prepend_nil, harguments, ok_bind]
  rfl

end Steps

/-! ## Arguments and their names -/

/-- An expression that a comma or a parenthesis ends is no named argument. -/
theorem startsNamedArgument_of_opens {first : Token} {others : List Token} {next : TokenStream}
    {mark : Char} (hopens : Opens first others) (hnext : next.current.kind = .punct mark)
    (hmark : mark ≠ '=' ∧ mark ≠ ':') :
    startsNamedArgument (next.prepend (first :: others)) = false := by
  unfold startsNamedArgument
  rw [TokenStream.current_prepend_cons, TokenStream.look_one_prepend_cons, Bool.and_eq_false_imp]
  intro hname
  have hsecond : ∃ other, (next.prepend others).current.kind = .punct other ∧
      other ≠ '=' ∧ other ≠ ':' := by
    rcases hopens.barred hname with rfl | ⟨line, more, rfl⟩
    · exact ⟨mark, hnext, hmark⟩
    · exact ⟨'|', rfl, by decide⟩
  obtain ⟨other, hkind, hother⟩ := hsecond
  rw [Token.isPunct, Token.isPunct, hkind]
  simp [hother]

theorem startsNamedArgument_of_mark {next : TokenStream} {word : String} {mark : Char}
    {wordLine line : Nat} {tokens : List Token} (hmark : mark = '=' ∨ mark = ':') :
    startsNamedArgument
      (next.prepend (⟨.name word, wordLine⟩ :: ⟨.punct mark, line⟩ :: tokens)) = true := by
  unfold startsNamedArgument
  rw [TokenStream.look_one_prepend_cons]
  rcases hmark with rfl | rfl <;> rfl

/-! ## Completeness -/

/-- What the readers accept with a bound on their recursion, whatever comes behind it. -/
structure ReadersComplete (bound : Nat) : Prop where
  expression : ∀ {tokens : List Token} {expr : Expr} {bare : Bool} (rest : TokenStream),
    Expression tokens expr bare → Ends bare rest → 4 * tokens.length + 2 ≤ bound →
      readExpression bound (rest.prepend tokens) = .ok (expr, rest)
  primary : ∀ {tokens : List Token} {expr : Expr} (rest : TokenStream),
    Primary tokens expr → 4 * tokens.length + 1 ≤ bound →
      readPrimary bound (rest.prepend tokens) = .ok (expr, rest)
  items : ∀ {list : List Token} {items : List Expr} (rest : TokenStream) (closed : Nat),
    Items list items → 4 * list.length + 3 ≤ bound →
      readItems bound (rest.prepend (list ++ [⟨.punct ']', closed⟩])) = .ok (items, rest)
  entries : ∀ {list : List Token} {entries : List (Expr × Expr)} (rest : TokenStream) (closed : Nat),
    Entries list entries → 4 * list.length + 3 ≤ bound →
      readEntries bound (rest.prepend (list ++ [⟨.punct '}', closed⟩])) = .ok (entries, rest)
  key : ∀ {tokens : List Token} {key : Expr} (rest : TokenStream),
    Key tokens key → 4 * tokens.length + 1 ≤ bound →
      readKey bound (rest.prepend tokens) = .ok (key, rest)
  arguments : ∀ {list : List Token} {arguments : List (Argument Expr)} (rest : TokenStream)
      (closed : Nat), Arguments list arguments → 4 * list.length + 4 ≤ bound →
      readArguments bound (rest.prepend (list ++ [⟨.punct ')', closed⟩])) = .ok (arguments, rest)
  argumentList : ∀ {list : List Token} {arguments : List (Argument Expr)} (rest : TokenStream)
      (closed : Nat), ArgumentList list arguments → 4 * list.length + 3 ≤ bound →
      readArgumentList bound (rest.prepend (list ++ [⟨.punct ')', closed⟩])) = .ok (arguments, rest)

/-- Without depth there is nothing that has to be accepted. -/
theorem ReadersComplete.zero : ReadersComplete 0 where
  expression := by omega
  primary := by omega
  items := by omega
  entries := by omega
  key := by omega
  arguments := by omega
  argumentList := by omega

namespace ReadersComplete

variable {bound : Nat} {rest : TokenStream}

/-- A derivation is read from its first token to its end, and what is left of the bound is enough
for what follows.  The induction is on the number of tokens: each filter comes behind a shorter
derivation and takes one turn. -/
theorem exists_filters (hcomplete : ∀ smaller ≤ bound, ReadersComplete smaller) {tokens : List Token}
    {expr : Expr} {bare : Bool} (rest : TokenStream) (hexpr : Expression tokens expr bare)
    (hlist : bare = true → rest.current.kind ≠ .punct '(') (hbound : 4 * tokens.length + 1 ≤ bound) :
    ∃ left ≤ bound, bound ≤ left + tokens.length ∧
      readExpression (bound + 1) (rest.prepend tokens) = readFilters left expr rest := by
  induction hlength : tokens.length using Nat.strongRecOn generalizing tokens expr bare rest with
  | ind length ih =>
  subst hlength
  cases hexpr with
  | primary hprimary =>
      refine ⟨bound, Nat.le_refl _, Nat.le_add_right _ _, ?_⟩
      rw [readExpression, (hcomplete bound (Nat.le_refl _)).primary rest hprimary hbound, ok_bind]
  | filter hsubject =>
      rename_i tokens subject bare word line wordLine
      simp only [List.length_append, List.length_cons, List.length_nil] at hbound ih ⊢
      obtain ⟨left, hle, hleft, hread⟩ := ih tokens.length (by omega)
        (rest.prepend [⟨.punct '|', line⟩, ⟨.name word, wordLine⟩]) hsubject (by simp) (by omega) rfl
      obtain ⟨left, rfl⟩ : ∃ next, left = next + 1 := ⟨left - 1, by omega⟩
      refine ⟨left, by omega, by omega, ?_⟩
      rw [TokenStream.prepend_append, hread]
      exact readFilters_filter subject word line wordLine (hlist rfl)
  | call hsubject harguments =>
      rename_i tokens list subject bare word arguments line wordLine opened closed
      simp only [List.length_append, List.length_cons, List.length_nil] at hbound ih ⊢
      obtain ⟨left, hle, hleft, hread⟩ := ih tokens.length (by omega)
        (rest.prepend (⟨.punct '|', line⟩ :: ⟨.name word, wordLine⟩ :: ⟨.punct '(', opened⟩ ::
          (list ++ [⟨.punct ')', closed⟩]))) hsubject (by simp) (by omega) rfl
      obtain ⟨left, rfl⟩ : ∃ next, left = next + 1 := ⟨left - 1, by omega⟩
      refine ⟨left, by omega, by omega, ?_⟩
      rw [TokenStream.prepend_append, hread]
      exact readFilters_call subject word line wordLine opened
        ((hcomplete left (by omega)).arguments rest closed harguments (by omega))

theorem expression_succ (hcomplete : ∀ smaller ≤ bound, ReadersComplete smaller)
    {tokens : List Token} {expr : Expr} {bare : Bool} (rest : TokenStream)
    (hexpr : Expression tokens expr bare) (hends : Ends bare rest)
    (hbound : 4 * tokens.length + 2 ≤ bound + 1) :
    readExpression (bound + 1) (rest.prepend tokens) = .ok (expr, rest) := by
  obtain ⟨first, others, rfl, -⟩ := hexpr.exists_opens
  rw [List.length_cons] at hbound
  obtain ⟨left, -, hleft, hread⟩ := exists_filters hcomplete rest hexpr hends.noList
    (by rw [List.length_cons]; omega)
  rw [List.length_cons] at hleft
  obtain ⟨left, rfl⟩ : ∃ next, left = next + 1 := ⟨left - 1, by omega⟩
  rw [hread, readFilters_of_noBar expr hends.noBar]

/-- What stands in parentheses is read up to the closing one. -/
theorem group (hcomplete : ReadersComplete bound) {tokens : List Token} {expr : Expr} {bare : Bool}
    (rest : TokenStream) (closed : Nat) (hexpr : Expression tokens expr bare)
    (hbound : 4 * tokens.length + 2 ≤ bound) :
    readExpression bound (rest.prepend (tokens ++ [⟨.punct ')', closed⟩])) =
      .ok (expr, rest.prepend [⟨.punct ')', closed⟩]) := by
  rw [TokenStream.prepend_append]
  exact hcomplete.expression _ hexpr (.of_mark rfl (by decide)) hbound

theorem primary_succ (hcomplete : ReadersComplete bound) {tokens : List Token} {expr : Expr}
    (rest : TokenStream) (hprimary : Primary tokens expr)
    (hbound : 4 * tokens.length + 1 ≤ bound + 1) :
    readPrimary (bound + 1) (rest.prepend tokens) = .ok (expr, rest) := by
  rw [readPrimary]
  cases hprimary with
  | constant hword => exact congrArg (fun expr => Except.ok (expr, rest)) (ofWord_of_mem hword)
  | name hword => exact congrArg (fun expr => Except.ok (expr, rest)) (ofWord_of_notMem hword)
  | number => rfl
  | string => rfl
  | array hitems =>
      rename_i list items opened closed
      simp only [List.length_append, List.length_cons, List.length_nil] at hbound
      have hread := hcomplete.items rest closed hitems (by omega)
      dsimp only [TokenStream.current_prepend_cons, TokenStream.advance_prepend_cons]
      rw [hread, ok_bind]
      rfl
  | map hentries =>
      rename_i list entries opened closed
      simp only [List.length_append, List.length_cons, List.length_nil] at hbound
      have hread := hcomplete.entries rest closed hentries (by omega)
      dsimp only [TokenStream.current_prepend_cons, TokenStream.advance_prepend_cons]
      rw [hread, ok_bind]
      rfl
  | group hexpr =>
      rename_i tokens bare opened closed
      simp only [List.length_append, List.length_cons, List.length_nil] at hbound
      have hread := hcomplete.group rest closed hexpr (by omega)
      dsimp only [TokenStream.current_prepend_cons, TokenStream.advance_prepend_cons]
      rw [hread, ok_bind, TokenStream.expectPunct_prepend_cons, ok_bind]
      rfl

theorem items_succ (hcomplete : ReadersComplete bound) {list : List Token} {items : List Expr}
    (rest : TokenStream) (closed : Nat) (hitems : Items list items)
    (hbound : 4 * list.length + 3 ≤ bound + 1) :
    readItems (bound + 1) (rest.prepend (list ++ [⟨.punct ']', closed⟩])) = .ok (items, rest) := by
  rw [readItems]
  cases hitems with
  | nil => rfl
  | last hexpr =>
      have hread := hcomplete.expression (rest.prepend [⟨.punct ']', closed⟩]) hexpr
        (.of_mark rfl (by decide)) (by omega)
      obtain ⟨first, others, rfl, hopens⟩ := hexpr.exists_opens
      have hfirst : first.kind ≠ .punct ']' := hopens.starts.ne_punct (by decide)
      rw [TokenStream.prepend_append, TokenStream.current_prepend_cons,
        if_neg (mt Token.isPunct_iff.mp hfirst), hread, ok_bind]
      rfl
  | cons hexpr hitems =>
      rename_i tokens list item items bare comma
      simp only [List.length_append, List.length_cons] at hbound
      have hread := hcomplete.expression
        (rest.prepend (⟨.punct ',', comma⟩ :: (list ++ [⟨.punct ']', closed⟩]))) hexpr
        (.of_mark rfl (by decide)) (by omega)
      have hothers := hcomplete.items rest closed hitems (by omega)
      obtain ⟨first, others, rfl, hopens⟩ := hexpr.exists_opens
      have hfirst : first.kind ≠ .punct ']' := hopens.starts.ne_punct (by decide)
      rw [TokenStream.prepend_concat, TokenStream.current_prepend_cons, if_neg (mt Token.isPunct_iff.mp hfirst), hread,
        ok_bind]
      dsimp only
      rw [if_neg (mt Token.isPunct_iff.mp (by simp)), TokenStream.expectPunct_prepend_cons, ok_bind,
        hothers, ok_bind]
      rfl

/-- An entry is read as its key, its colon and its value. -/
theorem exists_entry (hcomplete : ReadersComplete bound) {tokens : List Token} {entry : Expr × Expr}
    {mark : Char} (rest : TokenStream) (hentry : Entry tokens entry)
    (hnext : rest.current.kind = .punct mark) (hmark : mark ≠ '|' ∧ mark ≠ '(')
    (hbound : 4 * tokens.length + 2 ≤ bound) :
    (rest.prepend tokens).current.isPunct '}' = false ∧ ∃ afterKey afterColon,
      readKey bound (rest.prepend tokens) = .ok (entry.1, afterKey) ∧
        afterKey.expectPunct ':' = .ok afterColon ∧
        readExpression bound afterColon = .ok (entry.2, rest) := by
  obtain ⟨hkey, hexpr⟩ := hentry
  rename_i keyTokens tokens key value bare colon
  rw [List.length_append, List.length_cons] at hbound
  have hread : readKey bound ((rest.prepend (⟨.punct ':', colon⟩ :: tokens)).prepend keyTokens) =
      .ok (key, rest.prepend (⟨.punct ':', colon⟩ :: tokens)) := hcomplete.key _ hkey (by omega)
  rw [TokenStream.prepend_append]
  refine ⟨?_, _, _, hread, TokenStream.expectPunct_prepend_cons .., ?_⟩
  · obtain ⟨first, others, rfl, hstarts⟩ := hkey.exists_starts
    exact eq_false_of_ne_true (mt Token.isPunct_iff.mp (hstarts.ne_punct (by decide)))
  · exact hcomplete.expression rest hexpr (.of_mark hnext hmark) (by omega)

theorem entries_succ (hcomplete : ReadersComplete bound) {list : List Token}
    {entries : List (Expr × Expr)} (rest : TokenStream) (closed : Nat)
    (hentries : Entries list entries) (hbound : 4 * list.length + 3 ≤ bound + 1) :
    readEntries (bound + 1) (rest.prepend (list ++ [⟨.punct '}', closed⟩])) =
      .ok (entries, rest) := by
  rw [readEntries]
  cases hentries with
  | nil => rfl
  | last hentry =>
      obtain ⟨hmark, afterKey, afterColon, hkey, hcolon, hvalue⟩ :=
        hcomplete.exists_entry (rest.prepend [⟨.punct '}', closed⟩]) hentry rfl (by decide) (by omega)
      rw [TokenStream.prepend_append, if_neg (ne_true_of_eq_false hmark), hkey, ok_bind]
      dsimp only
      rw [hcolon, ok_bind, hvalue, ok_bind]
      rfl
  | cons hentry hentries =>
      rename_i tokens list entry entries comma
      rw [List.length_append, List.length_cons] at hbound
      obtain ⟨hmark, afterKey, afterColon, hkey, hcolon, hvalue⟩ :=
        hcomplete.exists_entry
          (rest.prepend (⟨.punct ',', comma⟩ :: (list ++ [⟨.punct '}', closed⟩]))) hentry rfl
          (by decide) (by omega)
      have hothers := hcomplete.entries rest closed hentries (by omega)
      rw [TokenStream.prepend_concat, if_neg (ne_true_of_eq_false hmark), hkey, ok_bind]
      dsimp only
      rw [hcolon, ok_bind, hvalue, ok_bind]
      dsimp only
      rw [if_neg (mt Token.isPunct_iff.mp (by simp)), TokenStream.expectPunct_prepend_cons, ok_bind,
        hothers, ok_bind]
      rfl

theorem key_succ (hcomplete : ReadersComplete bound) {tokens : List Token} {key : Expr}
    (rest : TokenStream) (hkey : Key tokens key) (hbound : 4 * tokens.length + 1 ≤ bound + 1) :
    readKey (bound + 1) (rest.prepend tokens) = .ok (key, rest) := by
  rw [readKey]
  cases hkey with
  | string => rfl
  | name => rfl
  | number => rfl
  | group hexpr =>
      rename_i tokens bare opened closed
      simp only [List.length_append, List.length_cons, List.length_nil] at hbound
      have hread := hcomplete.group rest closed hexpr (by omega)
      dsimp only [TokenStream.current_prepend_cons, TokenStream.advance_prepend_cons]
      rw [hread, ok_bind, TokenStream.expectPunct_prepend_cons, ok_bind]
      rfl

theorem arguments_succ (hcomplete : ReadersComplete bound) {list : List Token}
    {arguments : List (Argument Expr)} (rest : TokenStream) (closed : Nat)
    (harguments : Arguments list arguments) (hbound : 4 * list.length + 4 ≤ bound + 1) :
    readArguments (bound + 1) (rest.prepend (list ++ [⟨.punct ')', closed⟩])) =
      .ok (arguments, rest) := by
  rw [readArguments]
  cases harguments with
  | nil => rfl
  | list hlist =>
      obtain ⟨first, others, rfl, hfirst⟩ := hlist.exists_starts
      have hread := hcomplete.argumentList rest closed hlist (by omega)
      rw [List.cons_append] at hread ⊢
      rw [TokenStream.current_prepend_cons,
        if_neg (mt Token.isPunct_iff.mp (hfirst.ne_punct (by decide))), hread]

/-- An argument is read with its name, which only a named one has. -/
theorem argument (hcomplete : ReadersComplete bound) {tokens : List Token}
    {argument : Argument Expr} {mark : Char} (rest : TokenStream)
    (hargument : OneArgument tokens argument) (hnext : rest.current.kind = .punct mark)
    (hmark : mark ≠ '|' ∧ mark ≠ '(' ∧ mark ≠ '=' ∧ mark ≠ ':')
    (hbound : 4 * tokens.length + 2 ≤ bound) :
    (if startsNamedArgument (rest.prepend tokens) then (rest.prepend tokens).current.name?
        else none) = argument.name ∧
      readExpression bound (if argument.name.isSome then (rest.prepend tokens).advance.advance
        else rest.prepend tokens) = .ok (argument.value, rest) := by
  cases hargument with
  | positional hexpr =>
      obtain ⟨first, others, rfl, hopens⟩ := hexpr.exists_opens
      rw [startsNamedArgument_of_opens hopens hnext hmark.2.2]
      exact ⟨rfl, hcomplete.expression rest hexpr (.of_mark hnext ⟨hmark.1, hmark.2.1⟩) hbound⟩
  | named hlabel hexpr =>
      rw [List.length_cons, List.length_cons] at hbound
      rw [startsNamedArgument_of_mark hlabel]
      exact ⟨rfl, hcomplete.expression rest hexpr (.of_mark hnext ⟨hmark.1, hmark.2.1⟩) (by omega)⟩

theorem argumentList_succ (hcomplete : ReadersComplete bound) {list : List Token}
    {arguments : List (Argument Expr)} (rest : TokenStream) (closed : Nat)
    (harguments : ArgumentList list arguments) (hbound : 4 * list.length + 3 ≤ bound + 1) :
    readArgumentList (bound + 1) (rest.prepend (list ++ [⟨.punct ')', closed⟩])) =
      .ok (arguments, rest) := by
  rw [readArgumentList]
  cases harguments with
  | last hargument =>
      rename_i argument
      obtain ⟨hlabel, hread⟩ := hcomplete.argument (rest.prepend [⟨.punct ')', closed⟩]) hargument rfl
        (by decide) (by omega)
      rw [TokenStream.prepend_append]
      dsimp only
      rw [hlabel, hread, ok_bind]
      rfl
  | cons hargument harguments =>
      rename_i tokens list argument arguments comma
      rw [List.length_append, List.length_cons] at hbound
      obtain ⟨hlabel, hread⟩ := hcomplete.argument
        (rest.prepend (⟨.punct ',', comma⟩ :: (list ++ [⟨.punct ')', closed⟩]))) hargument rfl
        (by decide) (by omega)
      have hothers := hcomplete.argumentList rest closed harguments (by omega)
      rw [TokenStream.prepend_concat]
      dsimp only
      rw [hlabel, hread, ok_bind]
      dsimp only
      rw [if_neg (mt Token.isPunct_iff.mp (by simp)), TokenStream.expectPunct_prepend_cons, ok_bind,
        hothers, ok_bind]
      rfl

end ReadersComplete

theorem readersComplete (bound : Nat) : ReadersComplete bound := by
  induction bound using Nat.strongRecOn with
  | _ bound ih =>
  cases bound with
  | zero => exact .zero
  | succ bound =>
      have hsmaller : ∀ smaller ≤ bound, ReadersComplete smaller :=
        fun smaller hle => ih smaller (Nat.lt_succ_of_le hle)
      have hcomplete : ReadersComplete bound := hsmaller bound (Nat.le_refl _)
      exact
        { expression := ReadersComplete.expression_succ hsmaller
          primary := hcomplete.primary_succ
          items := hcomplete.items_succ
          entries := hcomplete.entries_succ
          key := hcomplete.key_succ
          arguments := hcomplete.arguments_succ
          argumentList := hcomplete.argumentList_succ }

end Expr

/-- The expression that a stream starts with is derived by the tokens in front of what is left. -/
theorem parseExpression_eq_ok_iff {stream rest : TokenStream} {expr : Expr} :
    parseExpression stream = .ok (expr, rest) ↔
      ∃ tokens bare, stream = rest.prepend tokens ∧ Expression tokens expr bare ∧ Ends bare rest := by
  constructor
  · exact (Expr.readersSound stream.depthBound).expression
  · rintro ⟨tokens, bare, rfl, hexpr, hends⟩
    apply (Expr.readersComplete _).expression rest hexpr hends
    rw [TokenStream.depthBound, TokenStream.length_ahead_prepend]
    omega

end TemplateMessages.Template

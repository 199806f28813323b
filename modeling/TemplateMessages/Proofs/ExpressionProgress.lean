import TemplateMessages.Proofs.ParsingLoops

/-!
# Progress in expressions

A parser of expressions ends from every cursor, agrees there with the reader of
what lies ahead, and never goes back; where it succeeds it has passed a token.
So each turn of a loop that goes on leaves fewer tokens, and as many turns as
there are tokens are enough for any loop.
-/

namespace TemplateMessages.Template

namespace Parse

variable {ε α β γ δ σ : Type}

/-- The outcome of a parser next to the result of a reader: the parser has not gone back, and it
fails in the way in which the reader does or has a value that settles the result. -/
inductive Follows (start : TokenCursor) (settled : α → TokenCursor → Except ε β → Prop) :
    Option (Except ε α × TokenCursor) → Except ε β → Prop
  | ok {value : α} {after : TokenCursor} {result : Except ε β} (hreach : start.Reaches after)
      (hsettled : settled value after result) :
      Follows start settled (some (.ok value, after)) result
  | error {error : ε} {after : TokenCursor} (hreach : start.Reaches after) :
      Follows start settled (some (.error error, after)) (.error error)

/-- The reader yields the value and what is ahead of the cursor. -/
def Yields (value : α) (after : TokenCursor) (result : Except ε (α × TokenStream)) : Prop :=
  result = .ok (value, after.stream)

/-- The same behind a token at least. -/
def Passes (start : TokenCursor) (value : α) (after : TokenCursor)
    (result : Except ε (α × TokenStream)) : Prop :=
  after.left < start.left ∧ Yields value after result

/-- A turn that goes on has passed a token, and the reader still has to read the rest. -/
def Turned (start : TokenCursor) (rest : σ → TokenStream → Except ε β)
    (settled : α → TokenCursor → Except ε β → Prop) :
    Turn σ α → TokenCursor → Except ε β → Prop
  | .again state, after, result => after.left < start.left ∧ result = rest state after.stream
  | .done value, after, result => settled value after result

section Steps

variable {start cursor : TokenCursor} {result : Except ε β}
  {settled : α → TokenCursor → Except ε β → Prop}

theorem Follows.mono {weaker : α → TokenCursor → Except ε β → Prop}
    {outcome : Option (Except ε α × TokenCursor)} (hfollows : Follows start settled outcome result)
    (hweaker : ∀ value after, start.Reaches after → settled value after result →
      weaker value after result) :
    Follows start weaker outcome result := by
  cases hfollows with
  | ok hreach hsettled => exact .ok hreach (hweaker _ _ hreach hsettled)
  | error hreach => exact .error hreach

theorem Follows.of_reaches {outcome : Option (Except ε α × TokenCursor)}
    (hstart : start.Reaches cursor) (hfollows : Follows cursor settled outcome result) :
    Follows start settled outcome result := by
  cases hfollows with
  | ok hreach hsettled => exact .ok (hstart.trans hreach) hsettled
  | error hreach => exact .error (hstart.trans hreach)

theorem bind_of_ok {parser : Parse ε α} {behind : α → Parse ε γ} {value : α}
    {after : TokenCursor} (hparser : parser cursor = some (.ok value, after)) :
    (parser >>= behind) cursor = behind value after := by
  show (parser cursor).bind _ = _
  rw [hparser]
  rfl

theorem bind_of_error {parser : Parse ε α} {behind : α → Parse ε γ} {error : ε}
    {after : TokenCursor} (hparser : parser cursor = some (.error error, after)) :
    (parser >>= behind) cursor = some (.error error, after) := by
  show (parser cursor).bind _ = _
  rw [hparser]
  rfl

/-- What follows a parser that settles the result only has to agree with it. -/
theorem Follows.andThen {parser : Parse ε α} {behind : α → Parse ε γ}
    {finish : γ → TokenCursor → Except ε β → Prop}
    (hfirst : Follows cursor settled (parser cursor) result) (hstart : start.Reaches cursor)
    (hnext : ∀ value after, start.Reaches after → after.left ≤ cursor.left →
      settled value after result → Follows start finish (behind value after) result) :
    Follows start finish ((parser >>= behind) cursor) result := by
  generalize houtcome : parser cursor = outcome at hfirst
  cases hfirst with
  | ok hreach hsettled =>
      rw [bind_of_ok houtcome]
      exact hnext _ _ (hstart.trans hreach) hreach.left_le hsettled
  | error hreach =>
      rw [bind_of_error houtcome]
      exact .error (hstart.trans hreach)

/-- Two steps of a parser follow two steps of a reader. -/
theorem Follows.bind {parser : Parse ε α} {behind : α → Parse ε γ} {read : β → Except ε δ}
    {finish : γ → TokenCursor → Except ε δ → Prop}
    (hfirst : Follows cursor settled (parser cursor) result) (hstart : start.Reaches cursor)
    (hnext : ∀ value after inner, cursor.Reaches after → settled value after inner →
      Follows start finish (behind value after) (inner >>= read)) :
    Follows start finish ((parser >>= behind) cursor) (result >>= read) := by
  generalize houtcome : parser cursor = outcome at hfirst
  cases hfirst with
  | ok hreach hsettled =>
      rw [bind_of_ok houtcome]
      exact hnext _ _ _ hreach hsettled
  | error hreach =>
      rw [bind_of_error houtcome]
      exact .error (hstart.trans hreach)

/-- Behind a token that both have passed, the parser only has to follow what the reader does with
its value. -/
theorem Follows.pass {parser : Parse ε α} {behind : α → Parse ε γ}
    {result : Except ε (α × TokenStream)} {read : α × TokenStream → Except ε δ}
    {finish : γ → TokenCursor → Except ε δ → Prop}
    (hfirst : Follows cursor (Passes cursor) (parser cursor) result) (hstart : start.Reaches cursor)
    (hnext : ∀ value after, start.Reaches after → after.left < cursor.left →
      Follows start finish (behind value after) (read (value, after.stream))) :
    Follows start finish ((parser >>= behind) cursor) (result >>= read) := by
  refine hfirst.bind hstart ?_
  rintro value after _ hreach ⟨hlt, rfl⟩
  exact hnext value after (hstart.trans hreach) hlt

end Steps

/-- Where fewer tokens than some number are left, a turn ends its loop or passes a token.  The
reader that it follows needs a bound of four for each token that is left and some more. -/
def Turns (limit slack : Nat) (turn : σ → Parse ε (Turn σ α))
    (rest : Nat → σ → TokenStream → Except ε β)
    (settled : α → TokenCursor → Except ε β → Prop) : Prop :=
  ∀ cursor bound state, cursor.left < limit → 4 * cursor.left + slack ≤ bound + 1 →
    Follows cursor (Turned cursor (rest bound) settled) (turn state cursor)
      (rest (bound + 1) state cursor.stream)

/-- A loop follows a reader when its turns do. -/
theorem follows_loop {turn : σ → Parse ε (Turn σ α)}
    {rest : Nat → σ → TokenStream → Except ε β}
    {settled : α → TokenCursor → Except ε β → Prop} {limit slack : Nat} (hslack : 0 < slack)
    (hturn : Turns limit slack turn rest settled)
    {turns bound : Nat} {cursor : TokenCursor} {state : σ} (hlimit : cursor.left < limit)
    (hturns : cursor.left < turns) (hbound : 4 * cursor.left + slack ≤ bound) :
    Follows cursor settled (loop turn turns state cursor) (rest bound state cursor.stream) := by
  -- The turns are counted apart from the bound of the reader: a turn takes one from both, but it
  -- takes four from what the reader needs.
  induction turns generalizing bound cursor state with
  | zero => exact absurd hturns (Nat.not_lt_zero _)
  | succ turns ih =>
      obtain ⟨bound, rfl⟩ : ∃ less, bound = less + 1 := ⟨bound - 1, by omega⟩
      refine (hturn cursor bound state hlimit hbound).andThen (.refl cursor) ?_
      rintro (state | value) after hreach hle hsettled
      · obtain ⟨hlt, hrest⟩ := hsettled
        rw [hrest]
        exact (ih (by omega) (by omega) (by omega)).of_reaches hreach
      · exact .ok hreach hsettled

/-! ## Tokens -/

section Tokens

variable {start cursor : TokenCursor}

theorem bind_current (behind : Token → Parse ε α) (cursor : TokenCursor) :
    (current >>= behind) cursor = behind cursor.current cursor := rfl

theorem bind_look (offset : Nat) (behind : Token → Parse ε α) (cursor : TokenCursor) :
    (look offset >>= behind) cursor = behind (cursor.look offset) cursor := rfl

theorem bind_next (behind : Token → Parse ε α) (cursor : TokenCursor) :
    (next >>= behind) cursor = behind cursor.current cursor.next := rfl

theorem left_next_lt_of_kind {kind : TokenKind} (hkind : cursor.current.kind = kind)
    (hmore : kind ≠ .eof) : cursor.next.left < cursor.left :=
  cursor.left_next_lt (hkind ▸ hmore)

theorem left_next_lt_of_isPunct {mark : Char} (hmark : cursor.current.isPunct mark = true) :
    cursor.next.left < cursor.left :=
  left_next_lt_of_kind (beq_iff_eq.mp hmark) nofun

theorem left_next_lt_of_name? {name : String} (hname : cursor.current.name? = some name) :
    cursor.next.left < cursor.left := by
  refine cursor.left_next_lt fun heof => ?_
  rw [Token.name?, heof] at hname
  cases hname

theorem ne_eof_of_fits {expected found : TokenKind} (hfits : expected.fits found = true)
    (hmore : expected ≠ .eof) : found ≠ .eof := by
  rintro rfl
  cases expected with
  | eof => exact hmore rfl
  | _ => cases hfits

theorem expect_of_fits {expected : TokenKind} (hfits : expected.fits cursor.current.kind = true) :
    expect expected cursor = some (.ok cursor.current, cursor.next) := by
  unfold expect
  rw [bind_current, if_pos hfits]
  rfl

theorem expect_of_isPunct {mark : Char} (hmark : cursor.current.isPunct mark = true) :
    expect (.punct mark) cursor = some (.ok cursor.current, cursor.next) := by
  have hkind : cursor.current.kind = .punct mark := beq_iff_eq.mp hmark
  refine expect_of_fits ?_
  rw [hkind]
  exact beq_self_eq_true mark

theorem follows_expect {expected : TokenKind} (hmore : expected ≠ .eof) (cursor : TokenCursor) :
    Follows cursor (Passes cursor) (expect expected cursor) (cursor.stream.expect expected) := by
  unfold TokenStream.expect
  rw [TokenCursor.current_stream, TokenCursor.advance_stream]
  by_cases hfits : expected.fits cursor.current.kind = true
  · rw [expect_of_fits hfits, if_pos hfits]
    exact .ok cursor.reaches_next ⟨cursor.left_next_lt (ne_eof_of_fits hfits hmore), rfl⟩
  · unfold expect
    rw [bind_current, if_neg hfits, if_neg hfits]
    exact .error (.refl cursor)

/-- The reader goes on behind punctuation without the token. -/
theorem Follows.passPunct {mark : Char} {behind : Token → Parse SyntaxError γ}
    {read : TokenStream → Except SyntaxError δ}
    {finish : γ → TokenCursor → Except SyntaxError δ → Prop}
    (hstart : start.Reaches cursor)
    (hnext : ∀ token after, start.Reaches after → after.left < cursor.left →
      Follows start finish (behind token after) (read after.stream)) :
    Follows start finish ((expect (.punct mark) >>= behind) cursor)
      (cursor.stream.expectPunct mark >>= read) := by
  have hmore : TokenKind.punct mark ≠ .eof := nofun
  have hread : cursor.stream.expectPunct mark >>= read =
      cursor.stream.expect (.punct mark) >>= fun found => read found.2 := by
    unfold TokenStream.expectPunct
    cases cursor.stream.expect (.punct mark) <;> rfl
  rw [hread]
  exact (follows_expect hmore cursor).pass hstart hnext

theorem expectName_of_name? {name : String} (hname : cursor.current.name? = some name) :
    expectName cursor = some (.ok name, cursor.next) := by
  unfold expectName
  rw [bind_current, hname]
  rfl

theorem follows_expectName (cursor : TokenCursor) :
    Follows cursor (Passes cursor) (expectName cursor) cursor.stream.expectName := by
  unfold TokenStream.expectName
  rw [TokenCursor.current_stream, TokenCursor.advance_stream]
  dsimp only
  cases hname : cursor.current.name? with
  | none =>
      unfold expectName
      rw [bind_current, hname]
      exact .error (.refl cursor)
  | some name =>
      rw [expectName_of_name? hname]
      exact .ok cursor.reaches_next ⟨left_next_lt_of_name? hname, rfl⟩

end Tokens

/-! ## Expressions -/

/-- Where fewer tokens than some number are left, the parser passes what the reader reads. -/
def Reads (limit : Nat) (parser : Parse ε α)
    (read : Nat → TokenStream → Except ε (α × TokenStream)) : Prop :=
  ∀ cursor bound, cursor.left < limit → 4 * cursor.left + 2 ≤ bound →
    Follows cursor (Passes cursor) (parser cursor) (read bound cursor.stream)

section Elements

variable {limit bound turns : Nat} {close : Char} {trailing : Bool}
  {element : Parse SyntaxError α}
  {readElement : Nat → TokenStream → Except SyntaxError (α × TokenStream)}
  {read : Nat → TokenStream → Except SyntaxError (List α × TokenStream)}
  {start cursor : TokenCursor}

theorem ok_append_nil (found : List α) (stream : TokenStream) :
    (.ok (found ++ [], stream) : Except ε (List α × TokenStream)) = .ok (found, stream) := by
  rw [List.append_nil]

/-- What is left to read of a list behind the elements found. -/
def restOf (close : Char) (read : Nat → TokenStream → Except SyntaxError (List α × TokenStream))
    (bound : Nat) (found : List α) (stream : TokenStream) :
    Except SyntaxError (List α × TokenStream) :=
  if stream.current.isPunct close then .ok (found, stream.advance)
  else do
    let stream ← if found.isEmpty then .ok stream else stream.expectPunct ','
    let (more, stream) ← read bound stream
    return (found ++ more, stream)

/-- A reader of lists reads an element and then the rest of the list. -/
def ReadsList (close : Char) (trailing : Bool)
    (readElement : Nat → TokenStream → Except SyntaxError (α × TokenStream))
    (read : Nat → TokenStream → Except SyntaxError (List α × TokenStream)) : Prop :=
  ∀ bound stream, read (bound + 1) stream =
    if trailing && stream.current.isPunct close then .ok ([], stream.advance)
    else do
      let (first, stream) ← readElement bound stream
      restOf close read bound [first] stream

theorem restOf_append (found : List α) (first : α) (stream : TokenStream) :
    (do
      let (rest, stream) ← restOf close read bound [first] stream
      return (found ++ rest, stream)) = restOf close read bound (found ++ [first]) stream := by
  unfold restOf
  by_cases hclose : stream.current.isPunct close = true
  · rw [if_pos hclose, if_pos hclose]
    rfl
  · rw [if_neg hclose, if_neg hclose]
    simp [List.append_assoc]

/-- Where the list does not end, a turn passes an element. -/
theorem follows_more
    {settled : List α → TokenCursor → Except SyntaxError (List α × TokenStream) → Prop}
    (helement : Reads limit element readElement)
    (hread : ReadsList close trailing readElement read) (hstart : start.Reaches cursor)
    (hlimit : cursor.left < limit) (hbound : 4 * cursor.left + 2 ≤ bound)
    (hopen : (trailing && cursor.current.isPunct close) = false) (found : List α) :
    Follows start (Turned start (restOf close read bound) settled)
      ((do
        let more ← element
        return Turn.again (found ++ [more])) cursor)
      (do
        let (more, stream) ← read (bound + 1) cursor.stream
        return (found ++ more, stream)) := by
  rw [hread, TokenCursor.current_stream, hopen, if_neg Bool.false_ne_true, bind_assoc]
  refine (helement cursor bound hlimit hbound).pass hstart ?_
  intro first after hreach hlt
  have hle := hstart.left_le
  exact .ok hreach ⟨by omega, restOf_append found first after.stream⟩

/-- A turn for a list ends at the closing mark or passes an element. -/
theorem turns_element (helement : Reads limit element readElement)
    (hread : ReadsList close trailing readElement read) :
    Turns limit 3 (elementTurn close trailing element) (restOf close read) fun value after result =>
      after.current.isPunct close = true ∧ result = .ok (value, after.next.stream) := by
  intro cursor bound found hlimit hbound
  unfold elementTurn another
  rw [restOf, bind_assoc, bind_current, TokenCursor.current_stream, TokenCursor.advance_stream]
  by_cases hclose : cursor.current.isPunct close = true
  · rw [if_pos hclose, if_pos hclose]
    exact .ok (.refl cursor) ⟨hclose, rfl⟩
  rw [if_neg hclose, if_neg hclose]
  cases found with
  | nil =>
      have hfirst : (trailing && cursor.current.isPunct close) = false := by simp [hclose]
      have henough : 4 * cursor.left + 2 ≤ bound := Nat.le_of_succ_le_succ hbound
      exact follows_more helement hread (.refl cursor) hlimit henough hfirst []
  | cons first others =>
      simp only [List.isEmpty_cons, if_false, Bool.false_eq_true, bind_assoc]
      refine Follows.passPunct (.refl cursor) ?_
      intro _ after hreach hlt
      rw [bind_current, pure_bind]
      -- Behind the comma the list may end at once; then the reader has no more elements.
      cases hend : trailing && after.current.isPunct close with
      | true =>
          have hdone : read (bound + 1) after.stream = .ok ([], after.next.stream) := by
            rw [hread, TokenCursor.current_stream, hend, if_pos rfl, TokenCursor.advance_stream]
          refine .ok hreach ⟨(Bool.and_eq_true_iff.mp hend).2, ?_⟩
          show (read (bound + 1) after.stream >>= _) = _
          rw [hdone]
          exact ok_append_nil (first :: others) after.next.stream
      | false =>
          exact follows_more helement hread hreach (by omega) (by omega) hend (first :: others)

/-- The elements of a list are passed up to the closing mark. -/
theorem follows_elements (helement : Reads limit element readElement)
    (hread : ReadsList close trailing readElement read) (hlimit : cursor.left < limit)
    (hturns : cursor.left < turns) (hbound : 4 * cursor.left + 3 ≤ bound) :
    Follows cursor (Passes cursor) (elements close trailing element turns cursor)
      (restOf close read bound [] cursor.stream) := by
  have hturn := turns_element helement hread
  refine (follows_loop (by decide) hturn hlimit hturns hbound).andThen (.refl cursor) ?_
  intro found after hreach hle ⟨hclose, hresult⟩
  have hlt := left_next_lt_of_isPunct hclose
  rw [bind_of_ok (expect_of_isPunct hclose)]
  exact .ok (hreach.trans after.reaches_next) ⟨by omega, hresult⟩

/-- Where a comma may stand behind the last element, the reader of what follows a comma also reads
the whole list. -/
theorem follows_elements_trailing (helement : Reads limit element readElement)
    (hread : ReadsList close true readElement read) (hlimit : cursor.left < limit)
    (hturns : cursor.left < turns) (hbound : 4 * cursor.left + 3 ≤ bound) :
    Follows cursor (Passes cursor) (elements close true element turns cursor)
      (read bound cursor.stream) := by
  have hrest : restOf close read bound [] cursor.stream = read bound cursor.stream := by
    obtain ⟨bound, rfl⟩ : ∃ less, bound = less + 1 := ⟨bound - 1, by omega⟩
    rw [restOf]
    split
    case isTrue hclose => rw [hread, hclose, Bool.true_and, if_pos rfl]
    case isFalse => exact bind_pure (read (bound + 1) cursor.stream)
  rw [← hrest]
  exact follows_elements helement hread hlimit hturns hbound

end Elements

section Expressions

variable {limit bound turns : Nat} {expr : Parse SyntaxError Expr} {start cursor : TokenCursor}

/-- What stands in parentheses is followed up to the closing one. -/
theorem follows_group (hexpr : Reads limit expr Expr.readExpression)
    (hstart : start.Reaches cursor) (hlimit : cursor.left < limit)
    (hbound : 4 * cursor.left + 2 ≤ bound) (hpassed : cursor.left < start.left) :
    Follows start (Passes start) (group expr cursor) (do
      let (inner, stream) ← Expr.readExpression bound cursor.stream
      let stream ← stream.expectPunct ')'
      return (inner, stream)) := by
  refine (hexpr cursor bound hlimit hbound).pass hstart ?_
  intro inner after hreach hlt
  refine Follows.passPunct hreach ?_
  intro _ last hreach hlast
  exact .ok hreach ⟨by omega, rfl⟩

theorem follows_key (hexpr : Reads limit expr Expr.readExpression) (hlimit : cursor.left ≤ limit)
    (hbound : 4 * cursor.left + 1 ≤ bound) :
    Follows cursor (Passes cursor) (key expr cursor) (Expr.readKey bound cursor.stream) := by
  obtain ⟨bound, rfl⟩ : ∃ less, bound = less + 1 := ⟨bound - 1, by omega⟩
  unfold key
  rw [Expr.readKey, bind_current, TokenCursor.current_stream, TokenCursor.advance_stream]
  cases hkind : cursor.current.kind with
  | str value => exact .ok cursor.reaches_next ⟨left_next_lt_of_kind hkind nofun, rfl⟩
  | name word => exact .ok cursor.reaches_next ⟨left_next_lt_of_kind hkind nofun, rfl⟩
  | number value => exact .ok cursor.reaches_next ⟨left_next_lt_of_kind hkind nofun, rfl⟩
  | punct mark =>
      have hlt := left_next_lt_of_kind hkind nofun
      by_cases hopen : mark = '('
      · subst hopen
        exact follows_group hexpr cursor.reaches_next (by omega) (by omega) hlt
      · simp only [TokenKind.punct.injEq, hopen, imp_self]
        exact .error (.refl cursor)
  | _ => exact .error (.refl cursor)

/-- An entry of a mapping. -/
def readEntry (bound : Nat) (stream : TokenStream) :
    Except SyntaxError ((Expr × Expr) × TokenStream) := do
  let (key, stream) ← Expr.readKey bound stream
  let stream ← stream.expectPunct ':'
  let (value, stream) ← Expr.readExpression bound stream
  return ((key, value), stream)

theorem reads_entry (hexpr : Reads limit expr Expr.readExpression) :
    Reads limit (entry expr) readEntry := by
  intro cursor bound hlimit hbound
  refine (follows_key hexpr (by omega) (by omega)).pass (.refl cursor) ?_
  intro key after hreach hlt
  refine Follows.passPunct hreach ?_
  intro _ middle hreach hmiddle
  refine (hexpr middle bound (by omega) (by omega)).pass hreach ?_
  intro value last hreach hlast
  exact .ok hreach ⟨by omega, rfl⟩

/-- An argument of a filter. -/
def readArgument (bound : Nat) (stream : TokenStream) :
    Except SyntaxError (Argument Expr × TokenStream) := do
  let label := if Expr.startsNamedArgument stream then stream.current.name? else none
  let (value, stream) ←
    Expr.readExpression bound (if label.isSome then stream.advance.advance else stream)
  return (⟨label, value⟩, stream)

theorem reads_argument (hexpr : Reads limit expr Expr.readExpression) :
    Reads limit (argument expr) readArgument := by
  intro cursor bound hlimit hbound
  unfold argument readArgument Expr.startsNamedArgument
  rw [bind_current, bind_look, TokenCursor.current_stream, TokenCursor.look_stream]
  cases hname : cursor.current.name? with
  | none =>
      refine (hexpr cursor bound hlimit hbound).pass (.refl cursor) ?_
      intro value after hreach hlt
      exact .ok hreach ⟨hlt, rfl⟩
  | some word =>
      have hnext := left_next_lt_of_name? hname
      cases hlabel : (cursor.look 1).isPunct '=' || (cursor.look 1).isPunct ':' with
      | false =>
          refine (hexpr cursor bound hlimit hbound).pass (.refl cursor) ?_
          intro value after hreach hlt
          exact .ok hreach ⟨hlt, rfl⟩
      | true =>
          have hreach := cursor.reaches_next.trans cursor.next.reaches_next
          have hle := cursor.next.reaches_next.left_le
          show Follows cursor _ ((expectName >>= _) cursor)
            (Expr.readExpression bound cursor.stream.advance.advance >>= _)
          rw [bind_of_ok (expectName_of_name? hname), bind_next, TokenCursor.advance_stream,
            TokenCursor.advance_stream]
          refine (hexpr cursor.next.next bound (by omega) (by omega)).pass hreach ?_
          intro value after hreach hlt
          exact .ok hreach ⟨by omega, rfl⟩

theorem readsList_readItems : ReadsList ']' true Expr.readExpression Expr.readItems := by
  intro bound stream
  rw [Expr.readItems]
  simp only [restOf, Bool.true_and, List.isEmpty_cons, Bool.false_eq_true, if_false]
  rfl

theorem readsList_readEntries : ReadsList '}' true readEntry Expr.readEntries := by
  intro bound stream
  rw [Expr.readEntries]
  simp only [restOf, readEntry, bind_assoc, pure_bind, Bool.true_and, List.isEmpty_cons,
    Bool.false_eq_true, if_false]
  rfl

theorem readsList_readArgumentList :
    ReadsList ')' false readArgument Expr.readArgumentList := by
  intro bound stream
  rw [Expr.readArgumentList]
  simp only [restOf, readArgument, bind_assoc, pure_bind, Bool.false_and, List.isEmpty_cons,
    Bool.false_eq_true, if_false]
  rfl

theorem follows_primary (hexpr : Reads limit expr Expr.readExpression)
    (hlimit : cursor.left ≤ limit) (hturns : cursor.left ≤ turns)
    (hbound : 4 * cursor.left + 1 ≤ bound) :
    Follows cursor (Passes cursor) (primary expr turns cursor)
      (Expr.readPrimary bound cursor.stream) := by
  obtain ⟨bound, rfl⟩ : ∃ less, bound = less + 1 := ⟨bound - 1, by omega⟩
  unfold primary
  rw [Expr.readPrimary, bind_next, TokenCursor.current_stream, TokenCursor.advance_stream]
  cases hkind : cursor.current.kind with
  | name word => exact .ok cursor.reaches_next ⟨left_next_lt_of_kind hkind nofun, rfl⟩
  | number value => exact .ok cursor.reaches_next ⟨left_next_lt_of_kind hkind nofun, rfl⟩
  | str value => exact .ok cursor.reaches_next ⟨left_next_lt_of_kind hkind nofun, rfl⟩
  | punct mark =>
      have hlt := left_next_lt_of_kind hkind nofun
      by_cases hbracket : mark = '['
      · subst hbracket
        show Follows cursor _ ((elements ']' true expr turns >>= _) cursor.next)
          (Expr.readItems bound cursor.next.stream >>= _)
        refine (follows_elements_trailing hexpr readsList_readItems (by omega) (by omega)
          (by omega)).pass cursor.reaches_next ?_
        intro items after hreach hafter
        exact .ok hreach ⟨by omega, rfl⟩
      by_cases hbrace : mark = '{'
      · subst hbrace
        show Follows cursor _ ((elements '}' true (entry expr) turns >>= _) cursor.next)
          (Expr.readEntries bound cursor.next.stream >>= _)
        refine (follows_elements_trailing (reads_entry hexpr) readsList_readEntries (by omega)
          (by omega) (by omega)).pass cursor.reaches_next ?_
        intro entries after hreach hafter
        exact .ok hreach ⟨by omega, rfl⟩
      by_cases hopen : mark = '('
      · subst hopen
        exact follows_group hexpr cursor.reaches_next (by omega) (by omega) hlt
      · simp only [TokenKind.punct.injEq, hbracket, hbrace, hopen, imp_self]
        rw [TokenStream.unexpected, TokenCursor.current_stream, hkind]
        exact .error cursor.reaches_next
  | _ =>
      dsimp only
      rw [TokenStream.unexpected, TokenCursor.current_stream, hkind]
      exact .error cursor.reaches_next

theorem follows_argumentList (hexpr : Reads limit expr Expr.readExpression)
    (hopen : cursor.current.isPunct '(' = true) (hlimit : cursor.left ≤ limit)
    (hturns : cursor.left ≤ turns) (hbound : 4 * cursor.left ≤ bound) :
    Follows cursor (Passes cursor) (argumentList expr turns cursor)
      (Expr.readArguments bound cursor.stream.advance) := by
  have hlt := left_next_lt_of_isPunct hopen
  obtain ⟨bound, rfl⟩ : ∃ less, bound = less + 1 := ⟨bound - 1, by omega⟩
  have hrest : Expr.readArguments (bound + 1) cursor.next.stream =
      restOf ')' Expr.readArgumentList bound [] cursor.next.stream := by
    rw [Expr.readArguments, restOf]
    split
    case isTrue => rfl
    case isFalse => exact (bind_pure (Expr.readArgumentList bound cursor.next.stream)).symm
  unfold argumentList
  rw [bind_of_ok (expect_of_isPunct hopen), TokenCursor.advance_stream, hrest]
  refine ((follows_elements (reads_argument hexpr) readsList_readArgumentList (by omega) (by omega)
    (by omega)).mono ?_).of_reaches cursor.reaches_next
  exact fun arguments after _ hpasses => ⟨Nat.lt_trans hpasses.1 hlt, hpasses.2⟩

/-- A turn for the filters ends behind the expression or passes a filter. -/
theorem turns_filter (hexpr : Reads limit expr Expr.readExpression) :
    Turns limit 1 (filterTurn expr limit) Expr.readFilters Yields := by
  intro cursor bound subject hlimit hbound
  unfold filterTurn
  rw [Expr.readFilters, bind_current, TokenCursor.current_stream, TokenCursor.advance_stream]
  by_cases hbar : cursor.current.isPunct '|' = true
  · rw [if_pos hbar, if_pos hbar, bind_next]
    have hlt := left_next_lt_of_isPunct hbar
    refine (follows_expectName cursor.next).pass cursor.reaches_next ?_
    intro word after hreach hafter
    rw [bind_current]
    by_cases hopen : after.current.isPunct '(' = true
    · simp only [TokenCursor.current_stream, hopen, if_true]
      refine (follows_argumentList hexpr hopen (by omega) (by omega) (by omega)).pass hreach ?_
      intro arguments last hreach hlast
      exact .ok hreach ⟨by omega, rfl⟩
    · simp only [TokenCursor.current_stream, hopen, if_false, Bool.false_eq_true]
      exact .ok hreach ⟨by omega, rfl⟩
  · rw [if_neg hbar, if_neg hbar]
    exact .ok (.refl cursor) rfl

end Expressions

theorem reads_expression (bound : Nat) : Reads bound (expression bound) Expr.readExpression := by
  induction bound with
  | zero => exact fun cursor _ hlimit => absurd hlimit (Nat.not_lt_zero _)
  | succ bound ih =>
      intro cursor fuel hlimit hfuel
      obtain ⟨fuel, rfl⟩ : ∃ less, fuel = less + 1 := ⟨fuel - 1, by omega⟩
      have hle : cursor.left ≤ bound := Nat.le_of_lt_succ hlimit
      rw [expression, Expr.readExpression]
      refine (follows_primary ih hle hle (by omega)).pass (.refl cursor) ?_
      intro subject after hreach hlt
      -- Behind the subject a token less is left, so the filters need no more turns than are left.
      refine ((follows_loop Nat.one_pos (turns_filter ih) (by omega) (by omega)
        (by omega)).mono ?_).of_reaches hreach
      exact fun value last hlast hyields => ⟨Nat.lt_of_le_of_lt hlast.left_le hlt, hyields⟩

end Parse

end TemplateMessages.Template

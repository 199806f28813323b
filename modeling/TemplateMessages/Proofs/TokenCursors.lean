import Mathlib.Data.List.Basic
import TemplateMessages.Template.TokenStream

/-!
# Places among tokens

A cursor is a place among tokens that end with the end of the template.  It goes
on by one token at a time and stays on the last one, so it is always on a token,
and asking for the next one need not get anywhere: it does exactly when the
cursor is not on the last token yet.  A stream is what lies ahead of a cursor.
-/

namespace TemplateMessages.Template

structure TokenCursor where
  tokens : List Token
  position : Nat
  closed : ∃ front endLine, tokens = front ++ [⟨.eof, endLine⟩]
  inside : position < tokens.length

namespace TokenCursor

/-- The tokens with the end of the template behind them, on the line of the last one, unless they
have it. -/
def closing (tokens : List Token) : List Token :=
  match tokens.getLast? with
  | some last => if last.isEof then tokens else tokens ++ [⟨.eof, last.line⟩]
  | none => [⟨.eof, 1⟩]

theorem closing_eq (tokens : List Token) :
    closing tokens =
      (TokenStream.ofTokens tokens).ahead ++ [⟨.eof, (TokenStream.ofTokens tokens).endLine⟩] := by
  unfold closing TokenStream.ofTokens
  cases hlast : tokens.getLast? with
  | none => rfl
  | some last =>
      by_cases heof : last.isEof = true
      · have hkind : last = ⟨.eof, last.line⟩ := by
          rw [Token.isEof, beq_iff_eq] at heof
          rw [← heof]
        simp only [heof, if_true]
        rw [← hkind]
        exact (List.dropLast_append_getLast? last hlast).symm
      · simp only [heof, if_false, Bool.false_eq_true]

/-- The cursor on the first token. -/
def ofTokens (tokens : List Token) : TokenCursor where
  tokens := closing tokens
  position := 0
  closed := ⟨_, _, closing_eq tokens⟩
  inside := by
    rw [closing_eq, List.length_append]
    exact Nat.succ_pos _

def current (cursor : TokenCursor) : Token :=
  cursor.tokens.get ⟨cursor.position, cursor.inside⟩

/-- The token some places ahead, or the last one. -/
def look (cursor : TokenCursor) (offset : Nat) : Token :=
  cursor.tokens.get ⟨min (cursor.position + offset) (cursor.tokens.length - 1),
    Nat.lt_of_le_of_lt (Nat.min_le_right _ _)
      (Nat.sub_lt (Nat.zero_lt_of_lt cursor.inside) Nat.one_pos)⟩

/-- The cursor on the next token; the last token has none. -/
def next (cursor : TokenCursor) : TokenCursor :=
  if hinside : cursor.position + 1 < cursor.tokens.length then
    ⟨cursor.tokens, cursor.position + 1, cursor.closed, hinside⟩
  else cursor

/-- The number of tokens behind the current one. -/
def left (cursor : TokenCursor) : Nat :=
  cursor.tokens.length - (cursor.position + 1)

/-- The tokens ahead as a stream. -/
def stream (cursor : TokenCursor) : TokenStream :=
  ⟨cursor.tokens.dropLast.drop cursor.position, (cursor.tokens.getLast?.map Token.line).getD 1⟩

theorem stream_ofTokens (tokens : List Token) :
    (ofTokens tokens).stream = .ofTokens tokens := by
  have htokens : (ofTokens tokens).tokens = _ := closing_eq tokens
  rw [stream, htokens, List.dropLast_concat, List.getLast?_concat]
  rfl

/-- A cursor stands on one of its tokens. -/
theorem getElem?_position (cursor : TokenCursor) :
    cursor.tokens[cursor.position]? = some cursor.current :=
  List.getElem?_eq_getElem cursor.inside

theorem look_stream (cursor : TokenCursor) (offset : Nat) :
    cursor.stream.look offset = cursor.look offset := by
  obtain ⟨tokens, position, ⟨front, endLine, rfl⟩, hinside⟩ := cursor
  rw [TokenStream.look, stream, look]
  simp only [List.get_eq_getElem, List.dropLast_concat, List.getElem?_drop, List.length_append, List.length_singleton,
    Nat.add_sub_cancel]
  by_cases hahead : position + offset < front.length
  · simp only [Nat.min_eq_left (Nat.le_of_lt hahead), List.getElem_append_left hahead,
      List.getElem?_eq_getElem hahead, Option.getD_some]
  · have hlast : min (position + offset) front.length = front.length :=
      Nat.min_eq_right (Nat.le_of_not_lt hahead)
    simp [TokenStream.final, List.getElem?_eq_none (Nat.le_of_not_lt hahead), hlast]

@[simp]
theorem current_stream (cursor : TokenCursor) : cursor.stream.current = cursor.current := by
  rw [← TokenStream.current_eq_look_zero, look_stream, look]
  simp only [Nat.add_zero, Nat.min_eq_left (Nat.le_sub_one_of_lt cursor.inside)]
  rfl

@[simp]
theorem advance_stream (cursor : TokenCursor) : cursor.stream.advance = cursor.next.stream := by
  obtain ⟨tokens, position, ⟨front, endLine, rfl⟩, hinside⟩ := cursor
  rw [TokenStream.advance, next]
  split
  case isTrue => simp [stream]
  case isFalse hlast =>
    have hend : front.length ≤ position := by
      rw [List.length_append, List.length_singleton] at hlast
      exact Nat.le_of_succ_le_succ (Nat.le_of_not_lt hlast)
    simp [stream, List.drop_eq_nil_of_le hend]

/-! ## Going forward -/

/-- A later place among the same tokens. -/
structure Reaches (cursor after : TokenCursor) : Prop where
  tokens : after.tokens = cursor.tokens
  position : cursor.position ≤ after.position

variable {cursor middle after : TokenCursor}

theorem Reaches.refl (cursor : TokenCursor) : cursor.Reaches cursor :=
  ⟨rfl, Nat.le_refl _⟩

theorem Reaches.trans (hfirst : cursor.Reaches middle) (hsecond : middle.Reaches after) :
    cursor.Reaches after :=
  ⟨hsecond.tokens.trans hfirst.tokens, Nat.le_trans hfirst.position hsecond.position⟩

theorem Reaches.left_le (hreach : cursor.Reaches after) : after.left ≤ cursor.left := by
  have hposition := hreach.position
  rw [left, left, hreach.tokens]
  omega

/-- Fewer tokens are left exactly when the cursor has gone forward. -/
theorem Reaches.left_lt_iff (hreach : cursor.Reaches after) :
    after.left < cursor.left ↔ cursor.position < after.position := by
  have hposition := hreach.position
  have hinside := after.inside
  rw [hreach.tokens] at hinside
  rw [left, left, hreach.tokens]
  omega

theorem reaches_next (cursor : TokenCursor) : cursor.Reaches cursor.next := by
  rw [next]
  split
  case isTrue => exact ⟨rfl, Nat.le_succ _⟩
  case isFalse => exact Reaches.refl cursor

/-- The end of the template is the only token that may have none behind it. -/
theorem left_next_lt (hmore : cursor.current.kind ≠ .eof) : cursor.next.left < cursor.left := by
  rw [(reaches_next cursor).left_lt_iff]
  obtain ⟨tokens, position, ⟨front, endLine, rfl⟩, hinside⟩ := cursor
  have hbehind : position + 1 < (front ++ [(⟨.eof, endLine⟩ : Token)]).length := by
    by_contra hlast
    rw [List.length_append, List.length_singleton] at hinside hlast
    obtain rfl : position = front.length := by omega
    exact hmore (by simp [current])
  rw [next, dif_pos hbehind]
  exact Nat.lt_succ_self position

end TokenCursor

end TemplateMessages.Template

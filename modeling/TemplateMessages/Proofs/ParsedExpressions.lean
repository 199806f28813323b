import Mathlib.Logic.Function.Iterate
import TemplateMessages.Proofs.GrammarCompleteness

/-!
# The expressions that a list of tokens holds

Between two positions of a list of tokens an expression is read exactly when the
tokens there derive it and the token behind them does not go on with it.  A
position is a count of steps over the tokens, and the last token, the end of the
template, is never passed.
-/

namespace TemplateMessages.Template

open Grammar

namespace TokenStream

variable {front : List Token} {endLine position : Nat}

theorem advance_iterate (stream : TokenStream) (count : Nat) :
    advance^[count] stream = ⟨stream.ahead.drop count, stream.endLine⟩ := by
  induction count with
  | zero => rfl
  | succ count ih =>
      rw [Function.iterate_succ_apply', ih, advance, List.tail_drop]

/-- A position in a list of tokens that an end of the template closes. -/
theorem advance_iterate_ofTokens (front : List Token) (endLine position : Nat) :
    advance^[position] (ofTokens (front ++ [⟨.eof, endLine⟩])) = ⟨front.drop position, endLine⟩ := by
  rw [ofTokens_concat_eof, advance_iterate]

theorem current_drop (hposition : position < (front ++ [(⟨.eof, endLine⟩ : Token)]).length) :
    current ⟨front.drop position, endLine⟩ = (front ++ [(⟨.eof, endLine⟩ : Token)])[position] := by
  rw [List.length_append, List.length_singleton] at hposition
  rcases Nat.lt_or_eq_of_le (Nat.le_of_lt_succ hposition) with hinside | rfl
  · rw [List.getElem_append_left hinside, List.drop_eq_getElem_cons hinside]
    rfl
  · rw [List.drop_length, List.getElem_concat_length rfl]
    rfl

/-- Tokens stand in front of a position when they are those up to it. -/
theorem eq_prepend_drop_iff {start finish : Nat} {part : List Token} (last : Token)
    (hstart : start ≤ front.length) (hfinish : finish ≤ front.length) :
    ⟨front.drop start, endLine⟩ = prepend ⟨front.drop finish, endLine⟩ part ↔
      start ≤ finish ∧
        part = ((front ++ [last]).drop start).take (finish - start) := by
  have hpart : ((front ++ [last]).drop start).take (finish - start) =
      (front.drop start).take (finish - start) := by
    rw [List.drop_append_of_le_length hstart, List.take_append_of_le_length]
    rw [List.length_drop]
    exact Nat.sub_le_sub_right hfinish start
  rw [hpart, prepend, mk.injEq, and_iff_left rfl]
  constructor
  · intro hsplit
    have hlength : front.length - start = part.length + (front.length - finish) := by
      rw [← List.length_drop, hsplit, List.length_append, List.length_drop]
    have hcount : part.length = finish - start := by omega
    exact ⟨by omega, by rw [hsplit, ← hcount, List.take_left]⟩
  · rintro ⟨hle, rfl⟩
    calc front.drop start
        = (front.drop start).take (finish - start) ++ (front.drop start).drop (finish - start) :=
          (List.take_append_drop _ _).symm
      _ = (front.drop start).take (finish - start) ++ front.drop finish := by
          rw [List.drop_drop, Nat.add_sub_cancel' hle]

/-- Behind tokens that stand at a position is another position. -/
theorem exists_position {start : Nat} {part : List Token} {rest : TokenStream}
    (hstart : start ≤ front.length) (hsplit : ⟨front.drop start, endLine⟩ = rest.prepend part) :
    ∃ finish ≤ front.length, rest = ⟨front.drop finish, endLine⟩ := by
  obtain ⟨hahead, hline⟩ := TokenStream.mk.inj hsplit
  refine ⟨start + part.length, ?_, ?_⟩
  · have hlength := congrArg List.length hahead
    rw [List.length_drop, List.length_append] at hlength
    omega
  · rw [← List.drop_drop, hahead, List.drop_left, hline]

end TokenStream

/-- An expression is read from one position to another exactly when the tokens between them derive
it and the token at the end does not go on with it; and what is read ends at some position. -/
theorem parseExpression_iff_derives {tokens : List Token} {endLine start : Nat}
    (hlast : tokens.getLast? = some ⟨.eof, endLine⟩) (hstart : start < tokens.length) (expr : Expr) :
    (∀ finish (hfinish : finish < tokens.length),
      parseExpression (TokenStream.advance^[start] (.ofTokens tokens)) =
          .ok (expr, TokenStream.advance^[finish] (.ofTokens tokens)) ↔
        start ≤ finish ∧ ∃ bare, Expression ((tokens.drop start).take (finish - start)) expr bare ∧
          tokens[finish].kind ≠ .punct '|' ∧ (bare = true → tokens[finish].kind ≠ .punct '(')) ∧
    ∀ rest, parseExpression (TokenStream.advance^[start] (.ofTokens tokens)) = .ok (expr, rest) →
      ∃ finish < tokens.length, rest = TokenStream.advance^[finish] (.ofTokens tokens) := by
  obtain ⟨front, rfl⟩ := List.getLast?_eq_some_iff.mp hlast
  rw [List.length_append, List.length_singleton, Nat.lt_succ_iff] at hstart
  simp only [TokenStream.advance_iterate_ofTokens, parseExpression_eq_ok_iff]
  constructor
  · intro finish hfinish
    have hcurrent := TokenStream.current_drop hfinish
    rw [List.length_append, List.length_singleton, Nat.lt_succ_iff] at hfinish
    rw [← hcurrent]
    constructor
    · rintro ⟨part, bare, hsplit, hexpr, hends⟩
      obtain ⟨hle, rfl⟩ := (TokenStream.eq_prepend_drop_iff ⟨.eof, endLine⟩ hstart hfinish).mp hsplit
      exact ⟨hle, bare, hexpr, hends.noBar, hends.noList⟩
    · rintro ⟨hle, bare, hexpr, hbar, hlist⟩
      exact ⟨_, bare, (TokenStream.eq_prepend_drop_iff _ hstart hfinish).mpr ⟨hle, rfl⟩, hexpr, hbar,
        hlist⟩
  · rintro rest ⟨part, bare, hsplit, -⟩
    obtain ⟨finish, hfinish, rfl⟩ := TokenStream.exists_position hstart hsplit
    exact ⟨finish, by simpa using Nat.lt_succ_of_le hfinish, rfl⟩

/-- The tokens of `= a | f ( b : 1 ) | g }}`, the bars on lines of their own. -/
def twoFilters : List Token :=
  [⟨.punct '=', 1⟩, ⟨.name "a", 1⟩, ⟨.punct '|', 2⟩, ⟨.name "f", 2⟩, ⟨.punct '(', 2⟩, ⟨.name "b", 2⟩,
    ⟨.punct ':', 2⟩, ⟨.number (.integer 1), 2⟩, ⟨.punct ')', 2⟩, ⟨.punct '|', 3⟩, ⟨.name "g", 3⟩,
    ⟨.varEnd, 3⟩, ⟨.eof, 3⟩]

/-- Both filters are read and derived, and no reading stops between them. -/
theorem parseExpression_twoFilters :
    (∃ bare, Expression ((twoFilters.drop 1).take 10)
        (.filter (.filter (.name "a") "f" [.named "b" (.constant (.number (.integer 1)))] 2) "g" [] 3)
        bare) ∧
      ∀ expr, parseExpression (TokenStream.advance^[1] (.ofTokens twoFilters)) ≠
        .ok (expr, TokenStream.advance^[9] (.ofTokens twoFilters)) := by
  have hlast : twoFilters.getLast? = some ⟨.eof, 3⟩ := rfl
  have hstart : 1 < twoFilters.length := by decide
  constructor
  · obtain ⟨-, bare, hexpr, -⟩ :=
      ((parseExpression_iff_derives hlast hstart _).1 11 (by decide)).mp rfl
    exact ⟨bare, hexpr⟩
  · intro expr hread
    obtain ⟨-, bare, -, hbar, -⟩ :=
      ((parseExpression_iff_derives hlast hstart expr).1 9 (by decide)).mp hread
    exact hbar rfl

end TemplateMessages.Template

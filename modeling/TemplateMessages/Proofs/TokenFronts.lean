import TemplateMessages.Template.Error
import TemplateMessages.Template.TokenStream

/-!
# Tokens at the front of a stream

What a reader passes is a list of tokens that stood in front of the stream that
it leaves.  A step of a reader passes one token, so a stream is that token in
front of the next stream.
-/

namespace TemplateMessages.Template

@[simp]
theorem Token.isPunct_iff {token : Token} {mark : Char} :
    token.isPunct mark = true ↔ token.kind = .punct mark := by
  rw [isPunct, beq_iff_eq]

theorem Token.name?_eq_some_iff {token : Token} {word : String} :
    token.name? = some word ↔ token.kind = .name word := by
  unfold name? TokenKind.name?
  cases token.kind <;> simp

namespace TokenStream

/-- The stream with tokens put in front of it. -/
def prepend (stream : TokenStream) (tokens : List Token) : TokenStream :=
  ⟨tokens ++ stream.ahead, stream.endLine⟩

theorem ofTokens_concat_eof (front : List Token) (endLine : Nat) :
    ofTokens (front ++ [⟨.eof, endLine⟩]) = ⟨front, endLine⟩ := by
  simp [ofTokens, Token.isEof]

variable {stream rest : TokenStream} {mark : Char}

@[simp]
theorem prepend_nil (stream : TokenStream) : stream.prepend [] = stream := rfl

@[simp]
theorem prepend_append (stream : TokenStream) (first second : List Token) :
    stream.prepend (first ++ second) = (stream.prepend second).prepend first := by
  simp [prepend]

/-- The tokens up to a mark stand in front of it and of what closes the list. -/
theorem prepend_concat (stream : TokenStream) (front list : List Token) (mark closing : Token) :
    stream.prepend (front ++ mark :: list ++ [closing]) =
      (stream.prepend (mark :: (list ++ [closing]))).prepend front := by
  simp [prepend]

@[simp]
theorem current_prepend_cons (stream : TokenStream) (token : Token) (tokens : List Token) :
    (stream.prepend (token :: tokens)).current = token := rfl

@[simp]
theorem advance_prepend_cons (stream : TokenStream) (token : Token) (tokens : List Token) :
    (stream.prepend (token :: tokens)).advance = stream.prepend tokens := rfl

theorem look_one_prepend_cons (stream : TokenStream) (token : Token) (tokens : List Token) :
    (stream.prepend (token :: tokens)).look 1 = (stream.prepend tokens).current := by
  rw [← current_eq_look_zero]
  rfl

@[simp]
theorem length_ahead_prepend (stream : TokenStream) (tokens : List Token) :
    (stream.prepend tokens).ahead.length = tokens.length + stream.ahead.length :=
  List.length_append

/-- Unless the stream has come to its end, its current token stands in front of the rest. -/
theorem exists_front {kind : TokenKind} (hkind : stream.current.kind = kind) (hmore : kind ≠ .eof) :
    ∃ line next, stream = prepend next [⟨kind, line⟩] := by
  obtain ⟨ahead, endLine⟩ := stream
  cases ahead with
  | nil => exact absurd hkind.symm hmore
  | cons token others =>
      subst hkind
      exact ⟨token.line, ⟨others, endLine⟩, rfl⟩

theorem exists_front_of_isPunct (hmark : stream.current.isPunct mark = true) :
    ∃ line next, stream = prepend next [⟨.punct mark, line⟩] :=
  exists_front (Token.isPunct_iff.mp hmark) nofun

/-! ## Expected tokens -/

theorem expectPunct_prepend_cons (stream : TokenStream) (mark : Char) (line : Nat)
    (tokens : List Token) :
    (stream.prepend (⟨.punct mark, line⟩ :: tokens)).expectPunct mark =
      .ok (stream.prepend tokens) := by
  simp [expectPunct, expect, TokenKind.fits, Except.map]

theorem expectName_prepend_cons (stream : TokenStream) (word : String) (line : Nat)
    (tokens : List Token) :
    (stream.prepend (⟨.name word, line⟩ :: tokens)).expectName = .ok (word, stream.prepend tokens) :=
  rfl

/-- Punctuation that is expected stands in front. -/
theorem exists_of_expectPunct (hexpect : stream.expectPunct mark = .ok rest) :
    ∃ line, stream = rest.prepend [⟨.punct mark, line⟩] := by
  obtain ⟨⟨token, after⟩, hfound, rfl⟩ := map_eq_ok.mp hexpect
  unfold expect at hfound
  dsimp only at hfound
  split at hfound
  case isTrue hfits =>
    obtain rfl : stream.advance = after := congrArg Prod.snd (Except.ok.inj hfound)
    cases hkind : stream.current.kind with
    | punct found =>
        rw [hkind, TokenKind.fits, beq_iff_eq] at hfits
        obtain ⟨line, next, rfl⟩ := exists_front hkind nofun
        exact ⟨line, hfits ▸ rfl⟩
    | _ =>
        rw [hkind] at hfits
        cases hfits
  case isFalse => cases hfound

theorem exists_of_expectName {word : String} (hexpect : stream.expectName = .ok (word, rest)) :
    ∃ line, stream = rest.prepend [⟨.name word, line⟩] := by
  unfold expectName at hexpect
  dsimp only at hexpect
  split at hexpect
  case h_1 found hname =>
    obtain ⟨rfl, rfl⟩ := Prod.mk.inj (Except.ok.inj hexpect)
    obtain ⟨line, next, rfl⟩ := exists_front (Token.name?_eq_some_iff.mp hname) nofun
    exact ⟨line, rfl⟩
  case h_2 => cases hexpect

end TokenStream

end TemplateMessages.Template

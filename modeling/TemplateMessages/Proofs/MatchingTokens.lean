import Mathlib.Data.List.Forall2
import TemplateMessages.Template.Node.Parser

/-!
# Tokens that match

Two lists of tokens match when they differ in nothing but the data of their texts,
which may be any that are related, and in the lines of the tokens.  Whatever is asked
of two streams of matching tokens has matching answers: both refuse for reasons that
are worded alike, or both go on to streams that match again.
-/

namespace TemplateMessages

/-- Both fail, for reasons that are related, or both succeed, with values that are. -/
inductive Matches {ε α β : Type} (reasons : ε → ε → Prop) (values : α → β → Prop) :
    Except ε α → Except ε β → Prop
  | error {reason reason' : ε} :
      reasons reason reason' → Matches reasons values (.error reason) (.error reason')
  | ok {value : α} {value' : β} :
      values value value' → Matches reasons values (.ok value) (.ok value')

namespace Matches

variable {ε ε' α β γ δ : Type} {reasons : ε → ε → Prop} {values : α → β → Prop}
  {next : γ → δ → Prop} {result : Except ε α} {result' : Except ε β}

theorem bind (hresult : Matches reasons values result result') {step : α → Except ε γ}
    {step' : β → Except ε δ}
    (hstep : ∀ value value', values value value' →
      Matches reasons next (step value) (step' value')) :
    Matches reasons next (result >>= step) (result' >>= step') := by
  cases hresult with
  | error hreason => exact .error hreason
  | ok hvalue => exact hstep _ _ hvalue

theorem imp (hresult : Matches reasons values result result') {others : α → β → Prop}
    (himp : ∀ value value', values value value' → others value value') :
    Matches reasons others result result' := by
  cases hresult with
  | error hreason => exact .error hreason
  | ok hvalue => exact .ok (himp _ _ hvalue)

theorem mapError (hresult : Matches reasons values result result') {others : ε' → ε' → Prop}
    {change change' : ε → ε'}
    (hchange : ∀ reason reason', reasons reason reason' → others (change reason) (change' reason')) :
    Matches others values (result.mapError change) (result'.mapError change') := by
  cases hresult with
  | error hreason => exact .error (hchange _ _ hreason)
  | ok hvalue => exact .ok hvalue

theorem mapM {step : α → Except ε γ} {step' : β → Except ε δ} {list : List α} {list' : List β}
    (hlist : List.Forall₂ values list list')
    (hstep : ∀ {value value'}, values value value' →
      Matches reasons next (step value) (step' value')) :
    Matches reasons (List.Forall₂ next) (list.mapM step) (list'.mapM step') := by
  induction hlist with
  | nil => exact .ok .nil
  | cons hvalue _ ih =>
      rw [List.mapM_cons, List.mapM_cons]
      refine (hstep hvalue).bind fun _ _ hfirst => ?_
      exact ih.bind fun _ _ hothers => .ok (.cons hfirst hothers)

end Matches

namespace Template

/-! ## Errors -/

/-- The errors are worded alike, but for the line. -/
structure SyntaxError.Agrees (error error' : SyntaxError) : Prop where
  message : error.fault.message = error'.fault.message
  template : error.template = error'.template

theorem SyntaxError.agrees_onLine {fault fault' : Fault} (line line' : Nat)
    (hfault : fault.message = fault'.message) : (onLine line fault).Agrees (onLine line' fault') :=
  ⟨hfault, rfl⟩

theorem SyntaxError.Agrees.inTemplate {error error' : SyntaxError} (herror : error.Agrees error')
    (template : Option String) : (error.inTemplate template).Agrees (error'.inTemplate template) := by
  cases template with
  | none => exact herror
  | some => exact ⟨herror.message, rfl⟩

/-- The same error, but for the line on which a syntax error is. -/
inductive TemplateError.Agrees : TemplateError → TemplateError → Prop
  | malformed {error error' : SyntaxError} :
      error.Agrees error' → Agrees (.malformed error) (.malformed error')
  | plural (error : Plural.PluralError) : Agrees (.plural error) (.plural error)
  | render (error : RenderError) : Agrees (.render error) (.render error)

theorem TemplateError.Agrees.inTemplate {error error' : TemplateError} (herror : error.Agrees error')
    (template : Option String) : (error.inTemplate template).Agrees (error'.inTemplate template) := by
  cases herror with
  | malformed herror => exact .malformed (herror.inTemplate template)
  | plural error => exact .plural error
  | render error => exact .render error

/-! ## Tokens -/

variable {texts : String → String → Prop}

/-- Two texts that are related, or one token twice. -/
inductive TokenKind.Like (texts : String → String → Prop) : TokenKind → TokenKind → Prop
  | text {data data' : String} : texts data data' → Like texts (.text data) (.text data')
  | same (kind : TokenKind) : Like texts kind kind

namespace TokenKind.Like

variable {kind kind' : TokenKind} (hkind : kind.Like texts kind')

include hkind

theorem describe_eq : kind.describe = kind'.describe := by
  cases hkind <;> rfl

/-! What is refused of a token is worded by how the token is described. -/

theorem message_unexpectedToken :
    (Fault.unexpectedToken kind).message = (Fault.unexpectedToken kind').message :=
  congrArg (fun found => "Unexpected token " ++ found ++ ".") hkind.describe_eq

theorem message_expectedToken (expected : TokenKind) :
    (Fault.expectedToken kind expected).message = (Fault.expectedToken kind' expected).message :=
  congrArg (fun found => "Unexpected token " ++ found ++ " (expected " ++ expected.describe ++ ").")
    hkind.describe_eq

theorem message_expectedName :
    (Fault.expectedName kind).message = (Fault.expectedName kind').message :=
  congrArg (fun found => "Unexpected token " ++ found ++ " (expected a name).") hkind.describe_eq

theorem message_invalidKey : (Fault.invalidKey kind).message = (Fault.invalidKey kind').message :=
  congrArg (fun found =>
    "A mapping key must be a quoted string, a name, a number or an expression enclosed in " ++
      "parentheses (unexpected token " ++ found ++ ").") hkind.describe_eq

theorem name?_eq : kind.name? = kind'.name? := by
  cases hkind <;> rfl

theorem fits_eq (expected : TokenKind) : expected.fits kind = expected.fits kind' := by
  cases hkind with
  | text => cases expected <;> rfl
  | same => rfl

/-- Whether a token is one that holds no text is the same of both. -/
theorem beq_eq {expected : TokenKind} (hexpected : ∀ data, expected ≠ .text data) :
    (kind == expected) = (kind' == expected) := by
  cases hkind with
  | text =>
      rw [beq_eq_false_iff_ne.mpr (hexpected _).symm, beq_eq_false_iff_ne.mpr (hexpected _).symm]
  | same => rfl

end TokenKind.Like

/-- The tokens are of kinds that match. -/
def Token.Like (texts : String → String → Prop) (token token' : Token) : Prop :=
  token.kind.Like texts token'.kind

namespace Token.Like

variable {token token' : Token} (htoken : token.Like texts token')

include htoken

theorem isName_eq (word : String) : token.isName word = token'.isName word :=
  congrArg (· == some word) htoken.name?_eq

theorem isPunct_eq (mark : Char) : token.isPunct mark = token'.isPunct mark :=
  htoken.beq_eq nofun

theorem isBlockEnd_eq : token.isBlockEnd = token'.isBlockEnd :=
  htoken.beq_eq nofun

theorem isEof_eq : token.isEof = token'.isEof :=
  htoken.beq_eq nofun

end Token.Like

/-! ## Streams -/

/-- The tokens ahead match; the ends may be on other lines. -/
def TokenStream.Like (texts : String → String → Prop) (stream stream' : TokenStream) : Prop :=
  List.Forall₂ (Token.Like texts) stream.ahead stream'.ahead

namespace TokenStream

theorem look_one (stream : TokenStream) : stream.look 1 = stream.advance.current := by
  obtain ⟨ahead, endLine⟩ := stream
  match ahead with
  | [] => rfl
  | [_] => rfl
  | _ :: _ :: _ => rfl

namespace Like

variable {stream stream' : TokenStream} (hstream : stream.Like texts stream')

include hstream

theorem current : stream.current.Like texts stream'.current := by
  obtain ⟨ahead, endLine⟩ := stream
  obtain ⟨ahead', endLine'⟩ := stream'
  cases hstream with
  | nil => exact .same .eof
  | cons htoken => exact htoken

theorem advance : stream.advance.Like texts stream'.advance := by
  obtain ⟨ahead, endLine⟩ := stream
  obtain ⟨ahead', endLine'⟩ := stream'
  cases hstream with
  | nil => exact .nil
  | cons _ hrest => exact hrest

theorem startsNamedArgument_eq :
    Expr.startsNamedArgument stream = Expr.startsNamedArgument stream' := by
  have hname : stream.current.name? = stream'.current.name? := hstream.current.name?_eq
  simp only [Expr.startsNamedArgument, look_one, hname, hstream.advance.current.isPunct_eq]

theorem depthBound_eq : stream.depthBound = stream'.depthBound := by
  rw [depthBound, depthBound, List.Forall₂.length_eq hstream]

theorem unexpected : stream.unexpected.Agrees stream'.unexpected :=
  SyntaxError.agrees_onLine _ _ (TokenKind.Like.message_unexpectedToken hstream.current)

theorem expect (expected : TokenKind) :
    Matches SyntaxError.Agrees (fun found found' => found.2.Like texts found'.2)
      (stream.expect expected) (stream'.expect expected) := by
  have hfound : TokenKind.Like texts stream.current.kind stream'.current.kind := hstream.current
  unfold TokenStream.expect
  dsimp only
  rw [hfound.fits_eq]
  split
  case isTrue => exact .ok hstream.advance
  case isFalse =>
    exact .error (SyntaxError.agrees_onLine _ _ (hfound.message_expectedToken expected))

theorem expectPunct (mark : Char) :
    Matches SyntaxError.Agrees (Like texts) (stream.expectPunct mark) (stream'.expectPunct mark) := by
  have hfound := hstream.expect (.punct mark)
  unfold TokenStream.expectPunct
  generalize stream.expect (.punct mark) = found at hfound ⊢
  generalize stream'.expect (.punct mark) = found' at hfound ⊢
  cases hfound with
  | error hreason => exact .error hreason
  | ok hrest => exact .ok hrest

theorem expectName :
    Matches SyntaxError.Agrees
      (fun found found' => found.1 = found'.1 ∧ found.2.Like texts found'.2)
      stream.expectName stream'.expectName := by
  have hname : stream.current.name? = stream'.current.name? := hstream.current.name?_eq
  unfold TokenStream.expectName
  dsimp only
  rw [hname]
  split
  case h_1 => exact .ok ⟨rfl, hstream.advance⟩
  case h_2 =>
    exact .error (SyntaxError.agrees_onLine _ _ (TokenKind.Like.message_expectedName hstream.current))

end Like

theorem like_ofTokens {tokens tokens' : List Token}
    (htokens : List.Forall₂ (Token.Like texts) tokens tokens') :
    (ofTokens tokens).Like texts (ofTokens tokens') := by
  have hreverse := List.forall₂_reverse_iff.mpr htokens
  rw [← List.reverse_reverse tokens, ← List.reverse_reverse tokens']
  generalize tokens.reverse = front at hreverse ⊢
  generalize tokens'.reverse = front' at hreverse ⊢
  cases hreverse with
  | nil => exact .nil
  | @cons last last' front front' hlast hfront =>
      have hbefore := List.forall₂_reverse_iff.mpr hfront
      have hlisted := List.rel_append hbefore (.cons hlast .nil)
      simp only [ofTokens, List.reverse_cons, List.getLast?_concat, List.dropLast_concat, Like,
        hlast.isEof_eq]
      split
      case isTrue => exact hbefore
      case isFalse => exact hlisted

end TokenStream

end Template

open Template in
theorem Matches.reading {α β : Type} {values : α → β → Prop} {result : Except SyntaxError α}
    {result' : Except SyntaxError β} (hresult : Matches SyntaxError.Agrees values result result') :
    Matches TemplateError.Agrees values (reading result) (reading result') :=
  hresult.mapError fun _ _ herror => .malformed herror

end TemplateMessages

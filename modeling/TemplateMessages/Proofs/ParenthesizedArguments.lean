import Mathlib.Logic.Function.Iterate
import TemplateMessages.Script.Messages

/-!
# Parentheses around arguments

A text says the same in any number of parentheses, and so does every argument of
a call that is read as a text.  An argument that stands for none is only known
bare: in parentheses `null` and `undefined` are a domain that is not known.  So
parentheses around an absent domain, and no others, change the message that a
call declares.
-/

namespace TemplateMessages.Script

/-- The arguments with parentheses around one of them. -/
def parenthesize (index depth : Nat) (arguments : List Expr) : List Expr :=
  arguments.modify index Expr.paren^[depth]

/-- Whether the parentheses stand around a domain that is absent. -/
def hidesAbsence (index depth : Nat) (arguments : List Expr) : Bool :=
  decide (0 < depth ∧ index = 2) && arguments[2]?.any Expr.isAbsent

/-- The message with a domain that is not known. -/
def withUnknownDomain (message : Message) : Message :=
  ⟨message.original, message.line, message.plural, some .undefined, message.notes, message.context⟩

namespace Expr

theorem text?_iterate_paren (depth : Nat) (expr : Expr) :
    (paren^[depth] expr).text? = expr.text? := by
  induction depth with
  | zero => rfl
  | succ depth ih => rw [Function.iterate_succ_apply', text?, ih]

theorem messages_iterate_paren (depth : Nat) (expr : Expr) :
    (paren^[depth] expr).messages = expr.messages := by
  induction depth with
  | zero => rfl
  | succ depth ih => rw [Function.iterate_succ_apply', messages, ih]

theorem text?_of_isAbsent {expr : Expr} (habsent : expr.isAbsent = true) : expr.text? = none := by
  cases expr with
  | null => rfl
  | name word => rfl
  | _ => cases habsent

end Expr

theorem domainOf_of_isAbsent {expr : Expr} (habsent : expr.isAbsent = true) :
    domainOf expr = none := by
  rw [domainOf, if_pos habsent]

/-- In parentheses no domain is absent. -/
theorem domainOf_iterate_paren {depth : Nat} (hdepth : 0 < depth) (expr : Expr) :
    domainOf (Expr.paren^[depth] expr) =
      if expr.isAbsent then some .undefined else domainOf expr := by
  obtain ⟨depth, rfl⟩ := Nat.exists_eq_add_one.mpr hdepth
  have hbare : (Expr.paren^[depth + 1] expr).isAbsent = false := by
    rw [Function.iterate_succ_apply']
    rfl
  rw [domainOf, hbare, if_neg Bool.false_ne_true, Expr.text?_iterate_paren]
  by_cases habsent : expr.isAbsent = true
  · rw [if_pos habsent, Expr.text?_of_isAbsent habsent]
  · rw [if_neg habsent, domainOf, if_neg habsent]

section Parenthesize

variable (index depth : Nat) (arguments : List Expr)

/-- What reads through parentheses reads the same of every argument. -/
theorem bind_parenthesize {β : Type} {read : Expr → Option β} (place : Nat)
    (hread : ∀ expr, read (Expr.paren^[depth] expr) = read expr) :
    (parenthesize index depth arguments)[place]?.bind read = arguments[place]?.bind read := by
  rw [parenthesize, List.getElem?_modify]
  cases arguments[place]? with
  | none => rfl
  | some argument =>
      by_cases hplace : index = place
      · simpa [hplace] using hread argument
      · simp [hplace]

theorem text?_parenthesize (place : Nat) :
    (parenthesize index depth arguments)[place]?.bind Expr.text? =
      arguments[place]?.bind Expr.text? :=
  bind_parenthesize index depth arguments place (Expr.text?_iterate_paren depth)

theorem domainOf_parenthesize :
    (parenthesize index depth arguments)[2]?.bind domainOf =
      if hidesAbsence index depth arguments then some .undefined
      else arguments[2]?.bind domainOf := by
  rw [parenthesize, List.getElem?_modify, hidesAbsence]
  by_cases hplace : 0 < depth ∧ index = 2
  · cases arguments[2]? with
    | none => simp
    | some argument => simp [hplace, domainOf_iterate_paren hplace.1]
  · have hsame : ∀ argument, (if index = 2 then Expr.paren^[depth] argument else argument) =
        argument := by
      intro argument
      split
      case isTrue hindex =>
        obtain rfl : depth = 0 := Nat.eq_zero_of_not_pos fun hdepth => hplace ⟨hdepth, hindex⟩
        rfl
      case isFalse => rfl
    cases arguments[2]? with
    | none => simp
    | some argument => simp [hplace, hsame]

theorem messagesAll_parenthesize :
    Expr.messagesAll (parenthesize index depth arguments) = Expr.messagesAll arguments := by
  rw [parenthesize]
  induction arguments generalizing index with
  | nil => simp
  | cons argument others ih =>
      cases index with
      | zero =>
          rw [List.modify_zero_cons, Expr.messagesAll, Expr.messagesAll,
            Expr.messages_iterate_paren]
      | succ index => rw [List.modify_succ_cons, Expr.messagesAll, Expr.messagesAll, ih]

/-- Parentheses change nothing of a message but an absent domain. -/
theorem message?_parenthesize (callee : Expr) (line : Nat) :
    message? callee (parenthesize index depth arguments) line =
      if hidesAbsence index depth arguments then
        (message? callee arguments line).map withUnknownDomain
      else message? callee arguments line := by
  have htext := text?_parenthesize index depth arguments
  rw [message?, message?, htext, htext, htext, domainOf_parenthesize]
  cases callee.isTranslate <;> cases hidesAbsence index depth arguments <;>
    simp [Function.comp_def, withUnknownDomain]

end Parenthesize

/-- A hidden domain was absent in the message. -/
theorem domain_of_hidesAbsence {index depth line : Nat} {callee : Expr} {arguments : List Expr}
    {message : Message} (hhides : hidesAbsence index depth arguments = true)
    (hmessage : message? callee arguments line = some message) : message.domain = none := by
  obtain ⟨argument, hargument, habsent⟩ :=
    (Option.any_eq_true _ _).mp (Bool.and_eq_true_iff.mp hhides).2
  rw [message?] at hmessage
  split at hmessage
  case isTrue =>
    obtain ⟨original, -, rfl⟩ := Option.map_eq_some_iff.mp hmessage
    rw [hargument]
    exact domainOf_of_isAbsent habsent
  case isFalse => cases hmessage

/-- Parentheses around an argument of a call keep its message, except those around an absent
domain: the domain of the message then is not known.  What is declared inside the call stays. -/
theorem message?_parenthesize_eq_iff (callee : Expr) (arguments : List Expr)
    (line index depth : Nat) :
    (message? callee (parenthesize index depth arguments) line = message? callee arguments line ↔
      ¬ (hidesAbsence index depth arguments ∧ (message? callee arguments line).isSome)) ∧
    (hidesAbsence index depth arguments →
      message? callee (parenthesize index depth arguments) line =
        (message? callee arguments line).map withUnknownDomain) ∧
    (Expr.call callee (parenthesize index depth arguments) line).messages =
      (message? callee (parenthesize index depth arguments) line).toList ++
        (callee.messages ++ Expr.messagesAll arguments) := by
  have hmessage := message?_parenthesize index depth arguments callee line
  refine ⟨?_, fun hhides => by rw [hmessage, if_pos hhides], ?_⟩
  · cases hhides : hidesAbsence index depth arguments with
    | false => simp [hmessage, hhides]
    | true =>
        rw [hmessage, if_pos hhides]
        cases hdeclared : message? callee arguments line with
        | none => simp
        | some message =>
            have hdomain := domain_of_hidesAbsence hhides hdeclared
            have hchanged : withUnknownDomain message ≠ message := by
              intro heq
              rw [← heq] at hdomain
              cases hdomain
            simpa using hchanged
  · rw [Expr.messages, messagesAll_parenthesize]

/-- The arguments of `t.translate('a', {}, null)`, the third of them in parentheses. -/
def nullDomain (depth : Nat) : List Expr :=
  parenthesize 2 depth [.literal (some "a"), .group [], .null]

/-- An absent domain files a message under the default domain, and under that of unknown domains
in parentheses. -/
theorem parenthesized_null_is_unknown :
    message? (.member (.name "t") "translate") (nullDomain 0) 1 =
      some ⟨"a", 1, none, none, none, none⟩ ∧
    message? (.member (.name "t") "translate") (nullDomain 1) 1 =
      some ⟨"a", 1, none, some .undefined, none, none⟩ ∧
    ¬ ∀ (callee : Expr) (arguments : List Expr) (line index depth : Nat),
      (message? callee arguments line).isSome →
        message? callee (parenthesize index depth arguments) line =
          message? callee arguments line := by
  refine ⟨by decide, by decide, fun hsame => ?_⟩
  have heq := hsame (.member (.name "t") "translate") (nullDomain 0) 1 2 1 (by decide)
  exact absurd heq (by decide)

end TemplateMessages.Script

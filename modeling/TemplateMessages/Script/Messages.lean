import TemplateMessages.Message
import TemplateMessages.Script.Statement

/-!
# Messages of scripts

A script declares a message by calling a method `translate` with a text.  The
third argument is the domain, the fourth the context and the fifth the plural.
Calls are met in front of what they are made of.
-/

namespace TemplateMessages.Script

def methodName : String := "translate"

namespace Expr

/-- The text of a literal, in any number of parentheses. -/
def text? : Expr → Option String
  | .literal text => text
  | .paren inner => inner.text?
  | _ => none

/-- Whether an argument stands for none. -/
def isAbsent : Expr → Bool
  | .null => true
  | .name word => word == "undefined"
  | _ => false

def isTranslate : Expr → Bool
  | .member _ property => property == methodName
  | _ => false

end Expr

/-- The domain that an argument gives. -/
def domainOf (argument : Expr) : Option MessageDomain :=
  if argument.isAbsent then none
  else
    some (match argument.text? with
      | some domain => .literal domain
      | none => .undefined)

/-- The message that a call declares. -/
def message? (callee : Expr) (arguments : List Expr) (line : Nat) : Option Message :=
  if callee.isTranslate then
    (arguments[0]?.bind Expr.text?).map fun original =>
      ⟨original, line, arguments[4]?.bind Expr.text?, arguments[2]?.bind domainOf, none,
        arguments[3]?.bind Expr.text?⟩
  else none

namespace Expr

mutual

/-- The messages of an expression and of everything in it. -/
def messages : Expr → List Message
  | .literal _ => []
  | .null => []
  | .name _ => []
  | .paren inner => inner.messages
  | .member object _ => object.messages
  | .call callee arguments line =>
      (message? callee arguments line).toList ++ (callee.messages ++ messagesAll arguments)
  | .group parts => messagesAll parts

def messagesAll : List Expr → List Message
  | [] => []
  | expr :: rest => expr.messages ++ messagesAll rest

end

end Expr

/-- The messages of a script, unless it cannot be read. -/
def messages? (text : String) : Option (List Message) :=
  (read? text).map Expr.messagesAll

end TemplateMessages.Script

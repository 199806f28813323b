import TemplateMessages.Assoc

/-!
# Token substitution

Every occurrence of a token is replaced by its value in one pass from left to
right.  Where several tokens start the longest one is taken, and what has been
put in is not looked at again.  For that the tokens are put in falling order of
their bytes, and the first of them that starts the text is taken.
-/

namespace TemplateMessages.Gettext

/-- A token and its value, as characters. -/
abbrev Binding := List Char × List Char

/-- The count of bytes of a token. -/
def byteLength : List Char → Nat
  | [] => 0
  | c :: rest => c.utf8Size + byteLength rest

/-- Puts a binding in front of the first one whose token has no more bytes. -/
def insertByBytes (binding : Binding) : List Binding → List Binding
  | [] => [binding]
  | first :: rest =>
      if byteLength first.1 ≤ byteLength binding.1 then binding :: first :: rest
      else first :: insertByBytes binding rest

/-- The bindings of tokens that are not empty, those with the most bytes first.
Tokens with as many bytes keep their order. -/
def byBytes (bindings : List Binding) : List Binding :=
  (bindings.filter fun binding => !binding.1.isEmpty).foldr insertByBytes []

/-- The first binding whose token starts the text. -/
def starting? (bindings : List Binding) (text : List Char) : Option Binding :=
  bindings.find? fun binding => binding.1.isPrefixOf text

/-- The pass over a text: `skip` characters belong to the token replaced last. -/
def substituteFrom (bindings : List Binding) (skip : Nat) : List Char → List Char
  | [] => []
  | c :: rest =>
      match skip with
      | skip + 1 => substituteFrom bindings skip rest
      | 0 =>
          match starting? bindings (c :: rest) with
          | some (token, value) =>
              value ++ substituteFrom bindings (token.length - 1) rest
          | none => c :: substituteFrom bindings 0 rest

/-- The text with its tokens replaced by their values. -/
def substitute (replacements : Assoc String String) (text : String) : String :=
  let bindings := replacements.map fun entry => (entry.1.toList, entry.2.toList)
  String.ofList (substituteFrom (byBytes bindings) 0 text.toList)

end TemplateMessages.Gettext

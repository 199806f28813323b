/-!
# Lookups

A lookup asks a catalogue for the translation of a text.  Its domain, its
context and a plural with a count may each be present or absent, and the eight
combinations are the eight functions `d?n?p?gettext`.
-/

namespace TemplateMessages.Gettext

/-- One of the eight lookup functions, told by what it takes. -/
structure LookupFunction where
  domain : Bool
  count : Bool
  context : Bool
deriving DecidableEq, Repr

def LookupFunction.name (function : LookupFunction) : String :=
  (if function.domain then "d" else "") ++ (if function.count then "n" else "") ++
    (if function.context then "p" else "") ++ "gettext"

structure Lookup where
  domain : Option String
  context : Option String
  original : String
  /-- The plural text and the count of a counted lookup. -/
  counted : Option (String × Nat)
deriving DecidableEq, Repr

namespace Lookup

/-- The lookup of a request.  A count without a plural text counts the original,
and a plural text without a count is left out. -/
def ofRequest (domain context : Option String) (original : String) (plural : Option String)
    (count : Option Nat) : Lookup :=
  ⟨domain, context, original, count.map fun n => (plural.getD original, n)⟩

def function (lookup : Lookup) : LookupFunction :=
  ⟨lookup.domain.isSome, lookup.counted.isSome, lookup.context.isSome⟩

/-- The arguments of the function, in its order. -/
def arguments (lookup : Lookup) : List String :=
  let counted := match lookup.counted with
    | some (plural, count) => [plural, toString count]
    | none => []
  lookup.domain.toList ++ lookup.context.toList ++ [lookup.original] ++ counted

end Lookup

end TemplateMessages.Gettext

import TemplateMessages.Assoc
import TemplateMessages.Json.Quoted
import TemplateMessages.Number

/-!
# Values

The values that templates compute with.  The members of an object stand in the
order in which their keys first arrived.
-/

namespace TemplateMessages

inductive Value where
  | null
  | bool (value : Bool)
  | number (value : Number)
  | string (value : String)
  | array (items : List Value)
  | object (members : List (String × Value))
deriving Repr, BEq, Inhabited

namespace Value

mutual

/-- The compact notation of a value, without blanks. -/
def json : Value → String
  | .null => "null"
  | .bool true => "true"
  | .bool false => "false"
  | .number value => value.text
  | .string value => Json.quoted value
  | .array items => "[" ++ jsonItems true items ++ "]"
  | .object members => "\x7b" ++ jsonMembers true members ++ "\x7d"

def jsonItems (first : Bool) : List Value → String
  | [] => ""
  | item :: rest => (if first then "" else ",") ++ json item ++ jsonItems false rest

def jsonMembers (first : Bool) : List (String × Value) → String
  | [] => ""
  | (key, value) :: rest =>
      (if first then "" else ",") ++ Json.quoted key ++ ":" ++ json value ++
        jsonMembers false rest

end

/-- What a value prints: nothing for null and false, `1` for true, a string as
it is, and arrays and objects in compact notation. -/
def display : Value → String
  | .null => ""
  | .bool true => "1"
  | .bool false => ""
  | .number value => value.text
  | .string value => value
  | .array items => json (.array items)
  | .object members => json (.object members)

def string? : Value → Option String
  | .string value => some value
  | _ => none

/-- The members of both objects, those of `right` winning; a side that is no
object is ignored. -/
def merge (left right : Value) : Value :=
  match left, right with
  | .object old, .object new => .object (Assoc.putAll old new)
  | .object old, _ => .object old
  | _, .object new => .object new
  | other, _ => other

end Value

end TemplateMessages

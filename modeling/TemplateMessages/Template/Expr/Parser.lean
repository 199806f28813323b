import TemplateMessages.Template.Expr
import TemplateMessages.Template.TokenStream

/-!
# Reading expressions

An expression is a primary followed by filters.  The five mutual readers take a
recursion bound first.  Every turn of their mutual recursion that comes back to
the same reader has consumed a token, so four times the number of tokens ahead
is a bound that no input reaches; `parseExpression` supplies it.
-/

namespace TemplateMessages.Template.Expr

/-- A name as an expression: four words are constants. -/
def ofWord : String → Expr
  | "true" => .constant (.bool true)
  | "false" => .constant (.bool false)
  | "null" => .null
  | "none" => .null
  | word => .name word

/-- Whether the stream stands on a name that an equals sign or a colon follows. -/
def startsNamedArgument (stream : TokenStream) : Bool :=
  stream.current.name?.isSome && ((stream.look 1).isPunct '=' || (stream.look 1).isPunct ':')

mutual

def readExpression : Nat → TokenStream → Except SyntaxError (Expr × TokenStream)
  | 0, stream => .error stream.unexpected
  | bound + 1, stream => do
      let (subject, stream) ← readPrimary bound stream
      readFilters bound subject stream

/-- The filters that follow an expression. -/
def readFilters : Nat → Expr → TokenStream → Except SyntaxError (Expr × TokenStream)
  | 0, _, stream => .error stream.unexpected
  | bound + 1, subject, stream =>
      if stream.current.isPunct '|' then do
        let line := stream.current.line
        let (word, stream) ← stream.advance.expectName
        let (arguments, stream) ←
          if stream.current.isPunct '(' then readArguments bound stream.advance
          else .ok ([], stream)
        readFilters bound (.filter subject word arguments line) stream
      else .ok (subject, stream)

def readPrimary : Nat → TokenStream → Except SyntaxError (Expr × TokenStream)
  | 0, stream => .error stream.unexpected
  | bound + 1, stream =>
      match stream.current.kind with
      | .name word => .ok (ofWord word, stream.advance)
      | .number value => .ok (.constant (.number value), stream.advance)
      | .str value => .ok (.string value, stream.advance)
      | .punct '[' => do
          let (items, stream) ← readItems bound stream.advance
          return (.array items, stream)
      | .punct '{' => do
          let (entries, stream) ← readEntries bound stream.advance
          return (.map entries, stream)
      | .punct '(' => do
          let (inner, stream) ← readExpression bound stream.advance
          let stream ← stream.expectPunct ')'
          return (inner, stream)
      | _ => .error stream.unexpected

/-- The items of an array up to its closing bracket; a comma may stand behind
the last one. -/
def readItems : Nat → TokenStream → Except SyntaxError (List Expr × TokenStream)
  | 0, stream => .error stream.unexpected
  | bound + 1, stream =>
      if stream.current.isPunct ']' then .ok ([], stream.advance)
      else do
        let (item, stream) ← readExpression bound stream
        if stream.current.isPunct ']' then return ([item], stream.advance)
        let stream ← stream.expectPunct ','
        let (items, stream) ← readItems bound stream
        return (item :: items, stream)

/-- The entries of a mapping up to its closing brace; a comma may stand behind
the last one. -/
def readEntries : Nat → TokenStream → Except SyntaxError (List (Expr × Expr) × TokenStream)
  | 0, stream => .error stream.unexpected
  | bound + 1, stream =>
      if stream.current.isPunct '}' then .ok ([], stream.advance)
      else do
        let (key, stream) ← readKey bound stream
        let stream ← stream.expectPunct ':'
        let (value, stream) ← readExpression bound stream
        if stream.current.isPunct '}' then return ([(key, value)], stream.advance)
        let stream ← stream.expectPunct ','
        let (entries, stream) ← readEntries bound stream
        return ((key, value) :: entries, stream)

/-- A key: a string, name or number stands for its text, an expression stands in
parentheses. -/
def readKey : Nat → TokenStream → Except SyntaxError (Expr × TokenStream)
  | 0, stream => .error stream.unexpected
  | bound + 1, stream =>
      match stream.current.kind with
      | .str value => .ok (.string value, stream.advance)
      | .name word => .ok (.string word, stream.advance)
      | .number value => .ok (.string value.text, stream.advance)
      | .punct '(' => do
          let (key, stream) ← readExpression bound stream.advance
          let stream ← stream.expectPunct ')'
          return (key, stream)
      | found => .error (.onLine stream.current.line (.invalidKey found))

/-- The arguments of a filter behind the opening parenthesis. -/
def readArguments : Nat → TokenStream → Except SyntaxError (List (Argument Expr) × TokenStream)
  | 0, stream => .error stream.unexpected
  | bound + 1, stream =>
      if stream.current.isPunct ')' then .ok ([], stream.advance)
      else readArgumentList bound stream

/-- One argument or more; no comma stands behind the last one. -/
def readArgumentList :
    Nat → TokenStream → Except SyntaxError (List (Argument Expr) × TokenStream)
  | 0, stream => .error stream.unexpected
  | bound + 1, stream => do
      let label := if startsNamedArgument stream then stream.current.name? else none
      let (value, stream) ←
        readExpression bound (if label.isSome then stream.advance.advance else stream)
      if stream.current.isPunct ')' then return ([⟨label, value⟩], stream.advance)
      let stream ← stream.expectPunct ','
      let (arguments, stream) ← readArgumentList bound stream
      return (⟨label, value⟩ :: arguments, stream)

end

end Expr

/-- A bound on the recursion of the readers that no stream of this length reaches. -/
def TokenStream.depthBound (stream : TokenStream) : Nat :=
  4 * stream.ahead.length + 4

/-- Reads an expression and leaves the stream behind it. -/
def parseExpression (stream : TokenStream) : Except SyntaxError (Expr × TokenStream) :=
  Expr.readExpression stream.depthBound stream

end TemplateMessages.Template

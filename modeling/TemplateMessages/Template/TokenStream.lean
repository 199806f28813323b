import TemplateMessages.Template.SyntaxError

/-!
# Token streams

A stream holds the tokens that are still to be read.  Behind the last of them
it stands on an end-of-template token for good, so reading never runs out and a
stream only ever loses tokens from its front.
-/

namespace TemplateMessages.Template

structure TokenStream where
  ahead : List Token
  /-- The line of the end of the template. -/
  endLine : Nat
deriving DecidableEq, Repr

namespace TokenStream

/-- The stream of a list of tokens.  An end-of-template token that closes the
list gives the line of the end; without one the end is on the last token's
line. -/
def ofTokens (tokens : List Token) : TokenStream :=
  match tokens.getLast? with
  | some last => ⟨if last.isEof then tokens.dropLast else tokens, last.line⟩
  | none => ⟨[], 1⟩

def final (stream : TokenStream) : Token :=
  ⟨.eof, stream.endLine⟩

/-- The token `offset` places ahead. -/
def look (stream : TokenStream) (offset : Nat) : Token :=
  stream.ahead[offset]?.getD stream.final

def current (stream : TokenStream) : Token :=
  match stream.ahead with
  | [] => stream.final
  | token :: _ => token

/-- The stream behind the current token. -/
def advance (stream : TokenStream) : TokenStream :=
  ⟨stream.ahead.tail, stream.endLine⟩

/-- Reads a token of the expected kind. -/
def expect (stream : TokenStream) (expected : TokenKind) :
    Except SyntaxError (Token × TokenStream) :=
  let found := stream.current
  if expected.fits found.kind then .ok (found, stream.advance)
  else .error (.onLine found.line (.expectedToken found.kind expected))

def expectPunct (stream : TokenStream) (mark : Char) : Except SyntaxError TokenStream :=
  (stream.expect (.punct mark)).map (·.2)

/-- Reads a name. -/
def expectName (stream : TokenStream) : Except SyntaxError (String × TokenStream) :=
  let found := stream.current
  match found.name? with
  | some name => .ok (name, stream.advance)
  | none => .error (.onLine found.line (.expectedName found.kind))

/-- The current token refused where it stands. -/
def unexpected (stream : TokenStream) : SyntaxError :=
  .onLine stream.current.line (.unexpectedToken stream.current.kind)

@[simp]
theorem current_eq_look_zero (stream : TokenStream) : stream.look 0 = stream.current := by
  cases stream with
  | mk ahead endLine => cases ahead <;> rfl

end TokenStream

end TemplateMessages.Template

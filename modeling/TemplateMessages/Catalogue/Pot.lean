import TemplateMessages.Catalogue.Store

/-!
# Portable object templates

A domain of a store as a portable object template: a header, and a block for
every message with its comments, flags, sources, context, and an empty
translation for each form.  A message of exactly two rules has a plural.
-/

namespace TemplateMessages.Catalogue.Pot

def octalDigit (value : Nat) : Char :=
  Char.ofNat ('0'.toNat + value)

/-- A character inside a quoted string: control characters have a letter or three
octal digits. -/
def escapeChar (c : Char) : List Char :=
  if c = '"' ∨ c = '\\' then ['\\', c]
  else if c = '\x07' then ['\\', 'a']
  else if c = '\x08' then ['\\', 'b']
  else if c = '\t' then ['\\', 't']
  else if c = '\n' then ['\\', 'n']
  else if c = '\x0b' then ['\\', 'v']
  else if c = '\x0c' then ['\\', 'f']
  else if c = '\r' then ['\\', 'r']
  else if c.toNat < 0x20 then
    ['\\', octalDigit (c.toNat / 64), octalDigit (c.toNat / 8 % 8), octalDigit (c.toNat % 8)]
  else [c]

def escape (text : String) : String :=
  String.ofList (text.toList.flatMap escapeChar)

/-- A keyword and a quoted string, on a line of their own. -/
def field (keyword text : String) : String :=
  keyword ++ " \"" ++ escape text ++ "\"\n"

def header (locale : String) : String :=
  "msgid \"\"\nmsgstr \"\"\n\"Content-Type: text/plain; charset=UTF-8\\n\"\n" ++
    "\"Content-Transfer-Encoding: 8bit\\n\"\n\"Language: " ++ locale ++ "\\n\"\n\n"

/-- The comment lines of a message. -/
def annotations (metadata : Metadata) : String :=
  String.join (metadata.comments.map fun comment => "#. TRANSLATORS: " ++ comment ++ "\n") ++
    (if metadata.flags.isEmpty then "" else "#, " ++ ",".intercalate metadata.flags ++ "\n") ++
    (if metadata.sources.isEmpty then "" else "#: " ++ " ".intercalate metadata.sources ++ "\n")

/-- The rules of a text; a text with an interval rule has none. -/
def rulesOf (text : String) : List String :=
  match Plural.standardRules text with
  | .ok rules => rules
  | .error _ => []

def pluralFields (count : Nat) : String :=
  String.join ((List.range count).map fun form => "msgstr[" ++ toString form ++ "] \"\"\n")

/-- The identifiers and empty translations of a message. -/
def messageFields (id target : String) : String :=
  match rulesOf id with
  | [singular, plural] =>
      let forms := (rulesOf target).length
      if forms = 0 then field "msgid" id ++ "msgstr \"\"\n"
      else field "msgid" singular ++ field "msgid_plural" plural ++ pluralFields forms
  | _ => field "msgid" id ++ "msgstr \"\"\n"

/-- The block of a message. -/
def block (metadata : Option Metadata) (key target : String) : String :=
  let comments := match metadata with
    | some metadata => annotations metadata
    | none => ""
  let context := match metadata.bind (·.context) with
    | some context => field "msgctxt" context
    | none => ""
  comments ++ context ++ messageFields (dropContext metadata key) target

/-- The template of a domain.  A store that cannot tell metadata yields neither
comments nor contexts. -/
def format (view : Store.View) (domain : String) : String :=
  header view.locale ++
    "\n".intercalate ((view.all domain).map fun message =>
      block (view.metadata? message.1 domain) message.1 message.2)

end TemplateMessages.Catalogue.Pot

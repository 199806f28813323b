import TemplateMessages.FileSystem
import TemplateMessages.Glob
import TemplateMessages.Json.Reader
import TemplateMessages.Text.Blank
import TemplateMessages.Text.Invisible

/-!
# Configuration

A project is configured by a document in its directory or in one above it, up to
the directory that is under version control.  Every setting has a default, and a
setting that is unknown is passed over.
-/

namespace TemplateMessages

structure Config where
  defaultDomain : String
  locale : String
  outputDirectory : String
  templateExtension : String
  scriptExtensions : List String
  ignores : List String
deriving DecidableEq, Repr

/-- Why a configuration cannot be used.  A cause that lies outside the program
is told by its kind alone. -/
inductive ConfigError where
  | unreadable (path : String)
  | malformed (path : String)
  | emptyDomain
  | invalidGlob (pattern : String)
deriving DecidableEq, Repr

namespace Config

/-- A character inside a quoted path.  What cannot be seen is written by its
number. -/
def escapeChar (c : Char) : String :=
  if c = '"' then "\\\""
  else if c = '\'' then "\\'"
  else if c = '\\' then "\\\\"
  else if c = '\n' then "\\n"
  else if c = '\r' then "\\r"
  else if c = '\t' then "\\t"
  else if c = '\x00' then "\\0"
  else if Text.isInvisible c then
    "\\u\x7b" ++ String.ofList (Nat.toDigits 16 c.toNat) ++ "\x7d"
  else c.toString

def quotedPath (path : String) : String :=
  "\"" ++ String.join (path.toList.map escapeChar) ++ "\""

end Config

def ConfigError.message : ConfigError → String
  | .unreadable path => "Failed to read config file: " ++ Config.quotedPath path ++ ": <io>"
  | .malformed path => "Failed to parse config file: " ++ Config.quotedPath path ++ ": <json>"
  | .emptyDomain => "'defaultDomain' must not be empty"
  | .invalidGlob pattern => "Invalid glob pattern in 'ignores': \"" ++ pattern ++ "\": <glob>"

namespace Config

def fileName : String := ".transcatrc.json"

/-- The entry that marks the topmost directory of a project. -/
def boundaryName : String := ".git"

/-- The settings in the order of their fields. -/
inductive Setting where
  | defaultDomain
  | locale
  | outputDirectory
  | templateExtension
  | scriptExtensions
  | ignores
deriving DecidableEq, Repr

namespace Setting

def all : List Setting :=
  [.defaultDomain, .locale, .outputDirectory, .templateExtension, .scriptExtensions, .ignores]

def name : Setting → String
  | .defaultDomain => "defaultDomain"
  | .locale => "locale"
  | .outputDirectory => "outputDir"
  | .templateExtension => "templateExtension"
  | .scriptExtensions => "sourceExtensions"
  | .ignores => "ignores"

end Setting

def initial : Config where
  defaultDomain := "messages"
  locale := "en"
  outputDirectory := "./languages"
  templateExtension := "twig"
  scriptExtensions := ["js", "jsx", "ts", "tsx"]
  ignores := []

def stringOf? : Json → Option String
  | .string text => some text
  | _ => none

def stringsOf? : Json → Option (List String)
  | .array items => items.mapM stringOf?
  | _ => none

/-- The configuration with one setting as a document gives it. -/
def set? (config : Config) (setting : Setting) (document : Json) : Option Config :=
  let ⟨defaultDomain, locale, outputDirectory, templateExtension, scriptExtensions, ignores⟩ :=
    config
  match setting with
  | .defaultDomain => (stringOf? document).map fun text =>
      ⟨text, locale, outputDirectory, templateExtension, scriptExtensions, ignores⟩
  | .locale => (stringOf? document).map fun text =>
      ⟨defaultDomain, text, outputDirectory, templateExtension, scriptExtensions, ignores⟩
  | .outputDirectory => (stringOf? document).map fun text =>
      ⟨defaultDomain, locale, text, templateExtension, scriptExtensions, ignores⟩
  | .templateExtension => (stringOf? document).map fun text =>
      ⟨defaultDomain, locale, outputDirectory, text, scriptExtensions, ignores⟩
  | .scriptExtensions => (stringsOf? document).map fun texts =>
      ⟨defaultDomain, locale, outputDirectory, templateExtension, texts, ignores⟩
  | .ignores => (stringsOf? document).map fun texts =>
      ⟨defaultDomain, locale, outputDirectory, templateExtension, scriptExtensions, texts⟩

/-- Applies the fields of an object in order; a setting may be given once. -/
def setFields? (config : Config) (seen : List Setting) :
    List (String × Json) → Option Config
  | [] => some config
  | (key, document) :: rest =>
      match Setting.all.find? fun setting => setting.name == key with
      | none => setFields? config seen rest
      | some setting =>
          if seen.contains setting then none
          else
            match config.set? setting document with
            | some config => setFields? config (setting :: seen) rest
            | none => none

/-- Applies the items of an array to the settings in order. -/
def setItems? (config : Config) : List Setting → List Json → Option Config
  | _, [] => some config
  | [], _ :: _ => none
  | setting :: settings, document :: rest =>
      match config.set? setting document with
      | some config => setItems? config settings rest
      | none => none

/-- The configuration that a document describes: an object with a field for each
setting it gives, or an array of settings. -/
def ofJson? : Json → Option Config
  | .object fields => setFields? initial [] fields
  | .array items => setItems? initial Setting.all items
  | _ => none

def parse? (text : String) : Option Config :=
  (Json.parse? text).bind ofJson?

/-- Refuses a default domain of nothing but blanks, and malformed globs. -/
def validate (config : Config) : Except ConfigError Unit :=
  if (Text.trim config.defaultDomain).isEmpty then .error .emptyDomain
  else
    match (config.ignores.filter Glob.hasWildcard).find? fun pattern =>
      (Glob.tokens? pattern).isNone with
    | some pattern => .error (.invalidGlob pattern)
    | none => .ok ()

def fieldText (setting : Setting) (value : String) : String :=
  "  " ++ Json.quoted setting.name ++ ": " ++ value

/-- A list of strings as the value of a field, an item a line. -/
def listText : List String → String
  | [] => "[]"
  | texts =>
      "[\n" ++ ",\n".intercalate (texts.map fun text => "    " ++ Json.quoted text) ++ "\n  ]"

def valueText (config : Config) : Setting → String
  | .defaultDomain => Json.quoted config.defaultDomain
  | .locale => Json.quoted config.locale
  | .outputDirectory => Json.quoted config.outputDirectory
  | .templateExtension => Json.quoted config.templateExtension
  | .scriptExtensions => listText config.scriptExtensions
  | .ignores => listText config.ignores

/-- The document that describes a configuration, a setting a line. -/
def text (config : Config) : String :=
  "\x7b\n" ++
    ",\n".intercalate (Setting.all.map fun setting =>
      fieldText setting (config.valueText setting)) ++
    "\n\x7d"

/-- Looks for the configuration file in a directory and in those above it, up to
the topmost directory of the project; `depth` bounds their count. -/
def findFrom (files : FileSystem) : Nat → String → Option String
  | 0, _ => none
  | depth + 1, directory =>
      let candidate := Path.join directory fileName
      if files.exists? candidate then some candidate
      else if files.exists? (Path.join directory boundaryName) then none
      else (Path.parent? directory).bind (findFrom files depth)

def find? (files : FileSystem) (directory : String) : Option String :=
  findFrom files (directory.length + 1) directory

/-- A configuration and where it comes from. -/
structure Loaded where
  config : Config
  fromFile : Bool
  /-- The directory that the relative paths of the settings are seen from. -/
  base : String
deriving DecidableEq, Repr

/-- The configuration of the file at a path. -/
def readFile (files : FileSystem) (path : String) : Except ConfigError Config :=
  match files.readText? path with
  | none => .error (.unreadable path)
  | some text =>
      match parse? text with
      | none => .error (.malformed path)
      | some config => do
          config.validate
          return config

/-- The configuration for a directory. -/
def load (files : FileSystem) (directory : String) : Except ConfigError Loaded :=
  match find? files directory with
  | none => .ok ⟨initial, false, directory⟩
  | some path => do
      let config ← readFile files path
      return ⟨config, true, (Path.parent? path).getD directory⟩

end Config

end TemplateMessages

import TemplateMessages.Catalogue.Pot
import TemplateMessages.Command.Arguments
import TemplateMessages.Config
import TemplateMessages.Extraction.Extractor

/-!
# Commands

`extract` writes a template of translations for every domain that a resource
has messages of, and `init` writes a configuration of default settings.  What a
command prints and what it writes is determined by its arguments and by the file
system it runs in.
-/

namespace TemplateMessages.Command

open Catalogue Extraction

/-- Why a command has no result.  A cause that lies outside the program is told
by its kind alone. -/
inductive CommandError where
  | config (error : ConfigError)
  | missingResource (path : String)
  | extraction (error : ExtractionError)
  | unwritable (directory path : String)
  | configExists
  | configUnwritable (path : String)
deriving DecidableEq, Repr

def CommandError.message : CommandError → String
  | .config error => error.message
  | .missingResource path => path ++ " does not exist"
  | .extraction error =>
      match error with
      | .unreadable _ => error.message ++ ": <io>"
      | .unwalkable _ => error.message ++ ": <io>"
      | _ => error.message
  | .unwritable directory path =>
      "Failed to write POT files to " ++ directory ++ ": Unable to write catalogue file: " ++
        path ++ ": <io>"
  | .configExists => Config.fileName ++ " already exists"
  | .configUnwritable path => "Failed to write " ++ path ++ ": <io>"

/-- What a command prints, and how it ends. -/
structure Printed where
  failed : Bool
  output : String
  errors : String
deriving DecidableEq, Repr

/-! ## Writing templates -/

def potExtension : String := "pot"

/-- The path of the template of a domain. -/
def potPath (directory domain : String) : String :=
  Path.join directory (domain ++ "." ++ potExtension)

/-- Writes the templates of domains up to the first that cannot be written. -/
def writeDomains (store : Store) (directory : String) (files : FileSystem) :
    List String → FileSystem × Except CommandError (List String)
  | [] => (files, .ok [])
  | domain :: rest =>
      let path := potPath directory domain
      match files.write? path (Pot.format store.view domain).toUTF8 with
      | none => (files, .error (.unwritable directory path))
      | some files =>
          let (files, written) := writeDomains store directory files rest
          (files, written.map (path :: ·))

/-- Writes the templates of all domains of a store. -/
def dump (store : Store) (directory : String) (files : FileSystem) :
    FileSystem × Except CommandError (List String) :=
  match files.makeDirectories directory with
  | (files, true) => writeDomains store directory files store.messages.domains
  | (files, false) => (files, .error (.unwritable directory directory))

/-! ## What is printed -/

def successMark : String := "\u2713"

/-- A count and what is counted. -/
def counted (count : Nat) (one more : String) : String :=
  toString count ++ " " ++ (if count = 1 then one else more)

/-- The count of messages that the file at a path holds; the file's name tells
the domain. -/
def writtenCount (store : Store) (path : String) : Nat :=
  (store.all ((Path.fileStem? path).getD "")).length

def extractOutput (store : Store) (files : Nat) (written : List String) : String :=
  let total := written.foldr (fun path count => writtenCount store path + count) 0
  successMark ++ " Extracted " ++ counted total "message" "messages" ++ " from " ++
    counted files "file" "files" ++ "\n" ++
    String.join (written.map fun path =>
      "  wrote " ++ path ++ " (" ++ counted (writtenCount store path) "entry" "entries" ++ ")\n")

/-- What is wrong with a file, with the reason why one could not be read: that
its content is no text. -/
def warning (error : ExtractionError) : String :=
  match error with
  | .unreadable _ => error.message ++ ": stream did not contain valid UTF-8"
  | _ => error.message

def failureOutput (verbose : Bool) (failures : List ExtractionError) : String :=
  if failures.isEmpty then ""
  else if verbose then
    String.join (failures.map fun error => "warning: " ++ warning error ++ "\n")
  else
    "warning: " ++ toString failures.length ++
      " file(s) could not be extracted (use -v for details)\n"

/-! ## Running commands -/

/-- The report of templates and scripts of a resource, in this order. -/
def reportOf (options : ExtractOptions) (loaded : Config.Loaded) (files : FileSystem) :
    Except ExtractionError Report := do
  let config := loaded.config
  let domain := options.domain.getD config.defaultDomain
  let selector (extensions : List String) :=
    FileSelector.ofPatterns extensions loaded.base config.ignores
  let templates : Extractor := ⟨.template, selector [config.templateExtension], domain⟩
  let scripts : Extractor := ⟨.script, selector config.scriptExtensions, domain⟩
  let first ← templates.extractResource files options.resource
  let second ← scripts.extractResource files options.resource
  return first.merge second

def runExtract (options : ExtractOptions) (files : FileSystem) :
    FileSystem × Except CommandError Printed :=
  match Config.load files files.workingPath with
  | .error error => (files, .error (.config error))
  | .ok loaded =>
      if !files.exists? options.resource then
        (files, .error (.missingResource options.resource))
      else
        match reportOf options loaded files with
        | .error error => (files, .error (.extraction error))
        | .ok report =>
            let locale := options.locale.getD loaded.config.locale
            let directory := options.output.getD
              (Path.join loaded.base loaded.config.outputDirectory)
            let store := (Store.empty locale).importAll report.catalogues
            let failures := report.failures
            let (files, written) := dump store directory files
            (files, written.map fun written =>
              ⟨!failures.isEmpty,
                extractOutput store (report.outcomes.length - failures.length) written,
                failureOutput options.verbose failures⟩)

def runInit (files : FileSystem) : FileSystem × Except CommandError Printed :=
  let path := Path.join files.workingPath Config.fileName
  if files.exists? path then (files, .error .configExists)
  else
    match files.write? path Config.initial.text.toUTF8 with
    | some files => (files, .ok ⟨false, successMark ++ " Created " ++ path ++ "\n", ""⟩)
    | none => (files, .error (.configUnwritable path))

def run (command : Command) (files : FileSystem) : FileSystem × Except CommandError Printed :=
  match command with
  | .extract options => runExtract options files
  | .init => runInit files

end TemplateMessages.Command

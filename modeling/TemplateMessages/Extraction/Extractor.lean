import TemplateMessages.Extraction.FileSelector
import TemplateMessages.Script.Messages
import TemplateMessages.Template.Session

/-!
# Extractors

An extractor reads files of one kind.  Templates share a session; a script is
read on its own.  A single file that cannot be read is an error, and in a batch
it is an outcome like any other.
-/

namespace TemplateMessages.Extraction

inductive FileKind where
  | template
  | script
deriving DecidableEq, Repr

structure Extractor where
  kind : FileKind
  selector : FileSelector
  defaultDomain : String

/-- The session of an extraction; nothing is translated in it. -/
def extractionSession : Template.Session :=
  .start (.empty "en")

namespace Extractor

/-- The messages of a text that stands at a path. -/
def extractText (extractor : Extractor) (session : Template.Session) (path text : String) :
    Except ExtractionError Catalogues × Template.Session :=
  match extractor.kind with
  | .template =>
      let (result, session) := session.extract extractor.defaultDomain text path
      (result.mapError (.template path), session)
  | .script =>
      match Script.messages? text with
      | some messages =>
          (.ok (.ofMessages extractor.defaultDomain (Path.reference path) messages), session)
      | none => (.error (.script path), session)

/-- The messages of a file, whatever its extension. -/
def extractFile (extractor : Extractor) (files : FileSystem) (session : Template.Session)
    (path : String) : Except ExtractionError Catalogues × Template.Session :=
  match files.readText? path with
  | some text => extractor.extractText session path text
  | none => (.error (.unreadable path), session)

/-- Adds files to a report, one after the other. -/
def extractFiles (extractor : Extractor) (files : FileSystem) (session : Template.Session)
    (report : Report) : List String → Report
  | [] => report
  | path :: rest =>
      let (result, session) := extractor.extractFile files session path
      extractor.extractFiles files session (report.record path result) rest

/-- The report of all files of a resource that the extractor takes. -/
def extractBatch (extractor : Extractor) (files : FileSystem) (resource : String) :
    Except ExtractionError Report := do
  let paths ← extractor.selector.collect files resource
  return extractor.extractFiles files extractionSession .empty paths

/-- The messages of a file or of everything below a directory. -/
def extract (extractor : Extractor) (files : FileSystem) (resource : String) :
    Except ExtractionError Catalogues :=
  if files.isFile resource then
    if extractor.selector.accepts files.workingPath resource then
      (extractor.extractFile files extractionSession resource).1
    else .ok .empty
  else (extractor.extractBatch files resource).map (·.catalogues)

/-- The report of a resource; an error in a resource that is a single file is
returned as such. -/
def extractResource (extractor : Extractor) (files : FileSystem) (resource : String) :
    Except ExtractionError Report :=
  if files.isFile resource then
    if extractor.selector.accepts files.workingPath resource then do
      let catalogues ← (extractor.extractFile files extractionSession resource).1
      return Report.empty.record resource (.ok catalogues)
    else .ok .empty
  else extractor.extractBatch files resource

end Extractor

end TemplateMessages.Extraction

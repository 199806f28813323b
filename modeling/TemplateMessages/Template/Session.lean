import TemplateMessages.Extraction.Collection
import TemplateMessages.Path
import TemplateMessages.Template.DomainScope
import TemplateMessages.Template.Source

/-!
# Sessions

A session serves many templates.  Its translations, the scope of the default
domain and the recorder of messages outlive a template, and each template leaves
them so that the next one is read as if it were the first.
-/

namespace TemplateMessages.Template

/-- Records the messages of the templates that are read while it is enabled. -/
structure Recorder where
  enabled : Bool
  messages : List Message
deriving Repr

namespace Recorder

def idle : Recorder := ⟨false, []⟩

/-- Starts to record; what was recorded before is dropped. -/
def enable (_recorder : Recorder) : Recorder := ⟨true, []⟩

/-- Stops recording and drops what was recorded. -/
def disable (_recorder : Recorder) : Recorder := idle

def observe (recorder : Recorder) (node : Node) : Recorder :=
  if recorder.enabled then ⟨true, recorder.messages ++ Message.ofNode node⟩ else recorder

end Recorder

structure Session where
  catalog : Gettext.Catalog
  scope : DomainScope
  recorder : Recorder

namespace Session

def start (catalog : Gettext.Catalog) : Session := ⟨catalog, .outermost, .idle⟩

def withRecorder (session : Session) (recorder : Recorder) : Session :=
  ⟨session.catalog, session.scope, recorder⟩

def setLocale (session : Session) (locale : String) : Session :=
  ⟨session.catalog.setLocale locale, session.scope, session.recorder⟩

def enable (session : Session) : Session :=
  session.withRecorder session.recorder.enable

def disable (session : Session) : Session :=
  session.withRecorder session.recorder.disable

/-- Reads a template, fills in its default domains and records its messages. -/
def parse (session : Session) (source : Source) : Except TemplateError Node × Session :=
  match source.read allTags with
  | .error error => (.error error, session)
  | .ok written =>
      let (node, scope) := written.fillDomains session.scope
      (.ok node, ⟨session.catalog, scope, session.recorder.observe node⟩)

def compile (session : Session) (source : Source) :
    Except TemplateError (List Instruction) × Session :=
  let (result, session) := session.parse source
  (result.map Node.program, session)

def render (session : Session) (source : Source) (context : Context) :
    Except TemplateError String × Session :=
  let (result, session) := session.parse source
  (result.bind fun node => node.render [transFilter session.catalog] context, session)

/-- The messages of a template as catalogues.  The recorder is on for this
template only, whether it can be read or not. -/
def extract (session : Session) (defaultDomain code path : String) :
    Except TemplateError Catalogues × Session :=
  let (result, session) := session.enable.parse ⟨code, Path.fileName? path⟩
  let messages := session.recorder.messages
  (result.map fun _ => Catalogues.ofMessages defaultDomain (Path.reference path) messages,
    session.disable)

end Session

end TemplateMessages.Template

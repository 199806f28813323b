import TemplateMessages.Extraction.Extractor
import TemplateMessages.Proofs.Merging
import TemplateMessages.Proofs.SessionHistory

/-!
# Reports of many texts

Texts that are read one after the other share a session and a report.  The
session lends nothing to the next text, so the outcome of each text is the one
that it has alone, and the catalogues of the report are those of all messages
added one by one: whether the messages of a text are collected first and merged
then, or a list is reported in two parts, makes no difference.
-/

namespace TemplateMessages

open TemplateMessages.Template (Session)

namespace Extraction

/-- What becomes of a text. -/
def Result.of : Except ExtractionError Catalogues → Result
  | .ok catalogues => .extracted catalogues.messageCount
  | .error error => .failed error

theorem Result.of_eq_failed_iff {result : Except ExtractionError Catalogues}
    {error : ExtractionError} : Result.of result = .failed error ↔ result = .error error := by
  cases result <;> simp [Result.of]

theorem Result.of_eq_extracted_iff {result : Except ExtractionError Catalogues} {count : Nat} :
    Result.of result = .extracted count ↔
      ∃ catalogues, result = .ok catalogues ∧ catalogues.messageCount = count := by
  cases result <;> simp [Result.of]

namespace Extractor

/-- Reads texts, each with its path, and adds to a report what becomes of them. -/
def extractTexts (extractor : Extractor) (session : Session) (report : Report) :
    List (String × String) → Report
  | [] => report
  | (path, text) :: rest =>
      let (result, session) := extractor.extractText session path text
      extractor.extractTexts session (report.record path result) rest

/-- The report of texts that a new extractor reads. -/
def reportOf (extractor : Extractor) (texts : List (String × String)) : Report :=
  extractor.extractTexts extractionSession .empty texts

/-- What a new extractor makes of a text. -/
def alone (extractor : Extractor) (text : String × String) : Except ExtractionError Catalogues :=
  (extractor.extractText extractionSession text.1 text.2).1

/-- The messages that a new extractor finds in a text. -/
def messages (extractor : Extractor) (text : String × String) :
    Except ExtractionError (List Message) :=
  match extractor.kind with
  | .template =>
      let (result, session) := extractionSession.enable.parse ⟨text.2, Path.fileName? text.1⟩
      (result.map fun _ => session.recorder.messages).mapError (.template text.1)
  | .script =>
      match Script.messages? text.2 with
      | some messages => .ok messages
      | none => .error (.script text.1)

/-- The messages of a text, each with the path that it is noted under; a text that fails has
none. -/
def occurrences (extractor : Extractor) (text : String × String) : List (String × Message) :=
  match extractor.messages text with
  | .ok messages => messages.map fun message => (Path.reference text.1, message)
  | .error _ => []

/-- The catalogues of messages that are added one by one. -/
def addOccurrences (extractor : Extractor) (catalogues : Catalogues)
    (occurrences : List (String × Message)) : Catalogues :=
  occurrences.foldl
    (fun added occurrence => added.addMessage extractor.defaultDomain occurrence.1 occurrence.2)
    catalogues

/-! ## One text -/

/-- What is extracted from a text in an outermost scope is collected from the messages that are
found in it alone. -/
theorem extractText_fst (extractor : Extractor) {session : Session}
    (hdepth : session.scope.depth = 0) (text : String × String) :
    (extractor.extractText session text.1 text.2).1 =
      (extractor.messages text).map
        (Catalogues.ofMessages extractor.defaultDomain (Path.reference text.1)) := by
  unfold extractText messages
  cases extractor.kind with
  | template =>
      have hsession : session.enable.scope.depth = 0 := hdepth
      have hfresh : extractionSession.enable.scope.depth = 0 := rfl
      have htree := Session.parse_fst_of_depth_eq_zero hsession (.empty "en")
        ⟨text.2, Path.fileName? text.1⟩
      have hsame := Session.parse_fst_of_depth_eq_zero hfresh (.empty "en")
        ⟨text.2, Path.fileName? text.1⟩
      simp only [Session.extract, Session.recorder_parse, htree, hsame]
      cases ((Session.start (.empty "en")).parse ⟨text.2, Path.fileName? text.1⟩).1 <;> rfl
  | script =>
      simp only
      cases Script.messages? text.2 <;> rfl

theorem depth_extractText (extractor : Extractor) (session : Session) (path text : String) :
    (extractor.extractText session path text).2.scope.depth = session.scope.depth := by
  unfold extractText
  cases extractor.kind with
  | template => exact Session.depth_parse session.enable ⟨text, Path.fileName? path⟩
  | script =>
      simp only
      cases Script.messages? text <;> rfl

theorem extractText_fst_eq_alone (extractor : Extractor) {session : Session}
    (hdepth : session.scope.depth = 0) (text : String × String) :
    (extractor.extractText session text.1 text.2).1 = extractor.alone text := by
  rw [alone, extractText_fst extractor hdepth, extractText_fst extractor rfl]

/-- Recording what is extracted from a text adds its messages one by one. -/
theorem record_alone (extractor : Extractor) (report : Report) (text : String × String) :
    report.record text.1 (extractor.alone text) =
      ⟨report.outcomes ++ [⟨text.1, .of (extractor.alone text)⟩],
        extractor.addOccurrences report.catalogues (extractor.occurrences text)⟩ := by
  have halone : extractor.alone text = (extractor.messages text).map
      (Catalogues.ofMessages extractor.defaultDomain (Path.reference text.1)) :=
    extractText_fst extractor rfl text
  rw [halone, occurrences]
  cases extractor.messages text with
  | error error => rfl
  | ok messages =>
      have hmerge := Catalogues.merge_foldl_addMessage report.catalogues .empty
        extractor.defaultDomain
        (messages.map fun message => (Path.reference text.1, message))
      rw [Catalogues.merge_empty, List.foldl_map] at hmerge
      exact congrArg (Report.mk _) hmerge

/-! ## Many texts -/

/-- From any outermost scope, texts add the outcome that each has alone, and all their messages. -/
theorem extractTexts_eq (extractor : Extractor) {session : Session}
    (hdepth : session.scope.depth = 0) (report : Report) (texts : List (String × String)) :
    extractor.extractTexts session report texts =
      ⟨report.outcomes ++ texts.map fun text => ⟨text.1, .of (extractor.alone text)⟩,
        extractor.addOccurrences report.catalogues (texts.flatMap extractor.occurrences)⟩ := by
  induction texts generalizing session report with
  | nil => rw [List.map_nil, List.append_nil]; rfl
  | cons text rest ih =>
      have hnext : (extractor.extractText session text.1 text.2).2.scope.depth = 0 := by
        rw [depth_extractText, hdepth]
      have hstep : extractor.extractTexts session report (text :: rest) =
          extractor.extractTexts (extractor.extractText session text.1 text.2).2
            (report.record text.1 (extractor.extractText session text.1 text.2).1) rest := rfl
      rw [hstep, ih hnext, extractText_fst_eq_alone extractor hdepth, record_alone,
        List.append_assoc, List.singleton_append, List.map_cons, List.flatMap_cons]
      exact congrArg (Report.mk _) List.foldl_append.symm

theorem addOccurrences_append (extractor : Extractor) (first second : List (String × Message)) :
    extractor.addOccurrences .empty (first ++ second) =
      (extractor.addOccurrences .empty first).merge (extractor.addOccurrences .empty second) := by
  calc
    extractor.addOccurrences .empty (first ++ second) =
        extractor.addOccurrences (extractor.addOccurrences .empty first) second :=
      List.foldl_append
    _ = (extractor.addOccurrences .empty first).merge (extractor.addOccurrences .empty second) :=
      (Catalogues.merge_foldl_addMessage (extractor.addOccurrences .empty first) .empty
        extractor.defaultDomain second).symm

theorem reportOf_eq (extractor : Extractor) (texts : List (String × String)) :
    extractor.reportOf texts =
      ⟨texts.map fun text => ⟨text.1, .of (extractor.alone text)⟩,
        extractor.addOccurrences .empty (texts.flatMap extractor.occurrences)⟩ :=
  extractTexts_eq extractor rfl .empty texts

/-- An outcome tells a path, and what becomes of the text alone. -/
structure TellsOf (extractor : Extractor) (text : String × String) (outcome : Outcome) : Prop where
  path : outcome.path = text.1
  failed : ∀ error, outcome.result = .failed error ↔ extractor.alone text = .error error
  extracted : ∀ count, outcome.result = .extracted count ↔
    ∃ catalogues, extractor.alone text = .ok catalogues ∧ catalogues.messageCount = count

/-- A report has one outcome for every text, in order, and each is that of the text alone; its
catalogues are those of all messages of the texts that do not fail, added one by one; and it is the
merge of the reports of the two parts into which the list is cut anywhere. -/
theorem reportOf_texts (extractor : Extractor) (texts : List (String × String)) :
    List.Forall₂ extractor.TellsOf texts (extractor.reportOf texts).outcomes ∧
    (extractor.reportOf texts).catalogues =
      extractor.addOccurrences .empty (texts.flatMap extractor.occurrences) ∧
    ∀ count, extractor.reportOf texts =
      (extractor.reportOf (texts.take count)).merge (extractor.reportOf (texts.drop count)) := by
  refine ⟨?_, ?_, ?_⟩
  · rw [reportOf_eq, List.forall₂_map_right_iff, List.forall₂_same]
    intro text _
    exact ⟨rfl, fun _ => Result.of_eq_failed_iff, fun _ => Result.of_eq_extracted_iff⟩
  · rw [reportOf_eq]
  · intro count
    rw [reportOf_eq, reportOf_eq, reportOf_eq, Report.merge, ← addOccurrences_append,
      ← List.flatMap_append, ← List.map_append, List.take_append_drop]

/-- Reading files whose texts are there is reading these texts. -/
theorem extractFiles_eq_extractTexts (extractor : Extractor) (files : FileSystem)
    (session : Session) (report : Report) {texts : List (String × String)}
    (htexts : ∀ text ∈ texts, files.readText? text.1 = some text.2) :
    extractor.extractFiles files session report (texts.map Prod.fst) =
      extractor.extractTexts session report texts := by
  induction texts generalizing session report with
  | nil => rfl
  | cons text rest ih =>
      obtain ⟨hfirst, hrest⟩ := List.forall_mem_cons.mp htexts
      have hstep : extractor.extractFile files session text.1 =
          extractor.extractText session text.1 text.2 := by
        rw [extractFile, hfirst]
      rw [List.map_cons, extractFiles, hstep]
      exact ih _ _ hrest

end Extractor

end Extraction

end TemplateMessages

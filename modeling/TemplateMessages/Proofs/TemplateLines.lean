import TemplateMessages.Proofs.CollectedDetails
import TemplateMessages.Proofs.PathComponents
import TemplateMessages.Proofs.PotReading
import TemplateMessages.Proofs.RecordedMessages

/-!
# Lines of a template

Each line of a template is told by what stands in front of it.  Texts and
contexts are escaped, so they never leave the line of their keyword, and a path
on one line is referred to on one line.  A note is written as it is, behind a mark
for its first line alone: its later lines stand in the template as they are, and
they are all that can go wrong there.
-/

namespace TemplateMessages

open TemplateMessages.Catalogue TemplateMessages.Catalogue.Store

namespace Catalogue.Pot

def lines (text : String) : List (List Char) :=
  text.toList.splitOn '\n'

/-- The lines of a text behind its first one. -/
def laterLines (text : String) : List (List Char) :=
  (lines text).tail

def IsKeyword (word : String) : Prop :=
  word ∈ ["msgctxt", "msgid", "msgid_plural", "msgstr"] ∨
    ∃ form : Nat, word = "msgstr[" ++ toString form ++ "]"

/-- A line that has a place in a template of a locale. -/
inductive WellFormed (locale : String) : List Char → Prop where
  | empty : WellFormed locale []
  | comment (text : List Char) : WellFormed locale ('#' :: text)
  | field {line : List Char} {keyword text : String} (hkeyword : IsKeyword keyword)
      (hread : readField line = some (.field keyword text)) : WellFormed locale line
  /-- A line of the header behind its two keywords. -/
  | header {line : String} (hline : line ∈ (headerLines locale).drop 2) :
      WellFormed locale line.toList

/-! ## Lines of a block -/

theorem lines_of_notMem {text : String} (htext : '\n' ∉ text.toList) : lines text = [text.toList] :=
  List.splitOn_eq_singleton htext

theorem isKeyword_of_mem {keyword : String} (hkeyword : keyword ∈ Line.keywords) :
    IsKeyword keyword := by
  have hcases : keyword ∈ ["msgctxt", "msgid", "msgid_plural", "msgstr"] ∨
      keyword = "msgstr[" ++ toString 0 ++ "]" ∨ keyword = "msgstr[" ++ toString 1 ++ "]" := by
    revert keyword
    decide
  rcases hcases with hplain | hform | hform
  · exact .inl hplain
  · exact .inr ⟨0, hform⟩
  · exact .inr ⟨1, hform⟩

theorem wellFormed_field (locale : String) {keyword : String} (hkeyword : keyword ∈ Line.keywords)
    (text : String) : WellFormed locale (Line.field keyword text).written.toList :=
  .field (isKeyword_of_mem hkeyword)
    (Line.readField_written (fun c hc => (Line.fits_field hkeyword text c hc).1) text)

theorem wellFormed_sources (locale text : String) :
    WellFormed locale (Line.sources text).written.toList := by
  rw [Line.written_sources, String.toList_append]
  exact .comment _

/-- Only the first line of a note is marked. -/
theorem lines_comment (note : String) :
    lines (Line.comment note).written =
      (lines note).modifyHead ("#. TRANSLATORS: ".toList ++ ·) := by
  rw [Line.written_comment, lines, String.toList_append]
  exact splitOn_append_of_front (by decide) note.toList

theorem laterLines_comment (note : String) :
    laterLines (Line.comment note).written = laterLines note := by
  rw [laterLines, laterLines, lines_comment, List.tail_modifyHead]

theorem wellFormed_or_mem_laterLines (locale : String) {note : String} {line : List Char}
    (hline : line ∈ lines (Line.comment note).written) :
    WellFormed locale line ∨ line ∈ laterLines note := by
  obtain ⟨first, later, hnote⟩ : ∃ first later, lines note = first :: later :=
    List.exists_cons_of_ne_nil (List.splitOn_ne_nil '\n' note.toList)
  rw [lines_comment, hnote, List.modifyHead_cons] at hline
  rw [laterLines, hnote, List.tail_cons]
  rcases List.mem_cons.mp hline with rfl | hlater
  · exact .inl (.comment _)
  · exact .inr hlater

/-- The places of entries stay on their line when the paths do. -/
theorem newline_notMem_sources {translations : List Translation}
    (hpaths : ∀ reference, Says (·.references.toList) reference translations →
      '\n' ∉ reference.path.toList) :
    '\n' ∉ (" ".intercalate (sources translations)).toList := by
  rw [sources_eq_map]
  apply newline_notMem_references
  intro reference hreference
  exact hpaths reference (List.mem_flatMap.mp hreference)

/-- A line of a block has a place in the template, or it belongs to a note. -/
theorem wellFormed_or_later_of_block (locale : String) {filed : List Filed} {file : Filed}
    (hpaths : ∀ reference, Says (·.references.toList) reference (sharing file.key filed) →
      '\n' ∉ reference.path.toList)
    {written : Line} (hwritten : written ∈ filedLines filed file) {line : List Char}
    (hline : line ∈ lines written.written) :
    WellFormed locale line ∨
      ∃ note, Says Details.comments note (sharing file.key filed) ∧ line ∈ laterLines note := by
  rcases mem_filedLines hwritten with ⟨note, hnote, rfl⟩ | rfl | ⟨keyword, hkeyword, text, rfl⟩
  · exact (wellFormed_or_mem_laterLines locale hline).imp_right
      fun hlater => ⟨note, List.mem_flatMap.mp hnote, hlater⟩
  · have hfits : (Line.sources (" ".intercalate (sources (sharing file.key filed)))).Fits :=
      newline_notMem_sources hpaths
    rw [lines_of_notMem (Line.newline_notMem_written hfits)] at hline
    rw [List.mem_singleton.mp hline]
    exact .inl (wellFormed_sources locale _)
  · rw [lines_of_notMem (Line.newline_notMem_written (Line.fits_field hkeyword text))] at hline
    rw [List.mem_singleton.mp hline]
    exact .inl (wellFormed_field locale hkeyword text)

/-- Every note of entries that share a key is written in their block. -/
theorem comment_mem_filedLines {filed : List Filed} {file : Filed} {note : String}
    (hnote : Says Details.comments note (sharing file.key filed)) :
    .comment note ∈ filedLines filed file := by
  rw [filedLines, noteLines]
  apply List.mem_append_left
  apply List.mem_append_left
  apply List.mem_append_left
  exact List.mem_map_of_mem (List.mem_flatMap.mpr hnote)

/-! ## Lines of a text -/

/-- The lines of joined blocks are those of the lines of each, and empty ones between them. -/
theorem mem_lines_intercalate {blocks : List (List Line)} {line : List Char} :
    line = [] ∨ line ∈ ([[]].intercalate (writtenLines blocks)).flatMap (·.splitOn '\n') ↔
      line = [] ∨ ∃ block ∈ blocks, ∃ written ∈ block, line ∈ lines written.written := by
  constructor
  · rintro (rfl | hline)
    · exact .inl rfl
    obtain ⟨text, htext, hline⟩ := List.mem_flatMap.mp hline
    rcases mem_or_of_mem_intercalate htext with hempty | ⟨part, hpart, hmem⟩
    · rw [List.mem_singleton.mp hempty] at hline
      exact .inl (List.mem_singleton.mp hline)
    · obtain ⟨block, hblock, rfl⟩ := List.mem_map.mp hpart
      obtain ⟨written, hwritten, rfl⟩ := List.mem_map.mp hmem
      exact .inr ⟨block, hblock, written, hwritten, hline⟩
  · apply Or.imp_right
    rintro ⟨block, hblock, written, hwritten, hline⟩
    have hpart : block.map (fun line => line.written.toList) ∈ writtenLines blocks :=
      List.mem_map_of_mem hblock
    exact List.mem_flatMap.mpr ⟨written.written.toList,
      mem_intercalate_of_mem hpart (List.mem_map_of_mem hwritten), hline⟩

/-- The lines of a text are those of its header and those of its blocks, and empty ones. -/
theorem mem_lines_text {locale : String} (hlocale : '\n' ∉ locale.toList) {blocks : List (List Line)}
    {line : List Char} :
    line ∈ lines (header locale ++ "\n".intercalate (blocks.map blockText)) ↔
      line ∈ (headerLines locale).map String.toList ∨ line = [] ∨
        ∃ block ∈ blocks, ∃ written ∈ block, line ∈ lines written.written := by
  have hhead : ∀ text ∈ (headerLines locale).map String.toList, '\n' ∉ text := by
    intro text htext
    obtain ⟨whole, hwhole, rfl⟩ := List.mem_map.mp htext
    exact (headerLines_fit hlocale whole hwhole).1
  have hempty : ([] : List Char).splitOn '\n' = [[]] := rfl
  rw [lines, toList_written, splitOn_ended, List.flatMap_append, flatMap_splitOn_of_notMem hhead,
    List.flatMap_cons, hempty, ← mem_lines_intercalate]
  simp only [List.mem_append, List.mem_singleton]
  tauto

theorem wellFormed_headerLines {locale line : String} (hline : line ∈ headerLines locale) :
    WellFormed locale line.toList := by
  have hsplit : headerLines locale =
      ["msgid \"\"", "msgstr \"\""] ++ (headerLines locale).drop 2 := rfl
  rw [hsplit, List.mem_append] at hline
  rcases hline with hkeyword | hquoted
  · have hfields : ["msgid \"\"", "msgstr \"\""] =
        [(Line.field "msgid" "").written, (Line.field "msgstr" "").written] := by
      decide
    rw [hfields, List.mem_cons, List.mem_singleton] at hkeyword
    rcases hkeyword with rfl | rfl
    · exact wellFormed_field locale (by decide) ""
    · exact wellFormed_field locale (by decide) ""
  · exact .header hquoted

/-! ## Lines of an import -/

/-- What entries of one key say is said in their domain. -/
theorem says_of_sharing {α : Type} {seen : Details → List α} {x : α} {filed : List Filed}
    {key : String} (hsaid : Says seen x (sharing key filed)) :
    Says seen x (filed.map Filed.translation) := by
  obtain ⟨translation, hmem, hx⟩ := hsaid
  obtain ⟨file, hfile, -, rfl⟩ := mem_sharing_iff.mp hmem
  exact ⟨file.translation, List.mem_map_of_mem hfile, hx⟩

/-- The lines of a template are lines that have a place there and all later lines of notes. -/
theorem lines_format_importAll {locale : String} (hlocale : '\n' ∉ locale.toList)
    {catalogues : Catalogues} {domain : String}
    (hpaths : ∀ reference, Says (·.references.toList) reference (catalogues.translationsIn domain) →
      '\n' ∉ reference.path.toList) :
    (∀ line ∈ lines (format ((Store.empty locale).importAll catalogues).view domain),
      WellFormed locale line ∨ ∃ note, Says Details.comments note (catalogues.translationsIn domain) ∧
        line ∈ laterLines note) ∧
    ∀ note, Says Details.comments note (catalogues.translationsIn domain) →
      ∀ line ∈ laterLines note,
        line ∈ lines (format ((Store.empty locale).importAll catalogues).view domain) := by
  obtain ⟨filed, owners, htranslations, -, howners, -, hformat⟩ :=
    exists_format_eq locale catalogues domain
  rw [← htranslations] at hpaths ⊢
  rw [hformat]
  constructor
  · intro line hline
    rcases (mem_lines_text hlocale).mp hline with hheader | rfl |
      ⟨block, hblock, written, hwritten, hline⟩
    · obtain ⟨text, htext, rfl⟩ := List.mem_map.mp hheader
      exact .inl (wellFormed_headerLines htext)
    · exact .inl .empty
    · obtain ⟨owner, -, rfl⟩ := List.mem_map.mp hblock
      refine (wellFormed_or_later_of_block locale (fun reference hreference => ?_) hwritten
        hline).imp_right ?_
      · exact hpaths reference (says_of_sharing hreference)
      rintro ⟨note, hnote, hlater⟩
      exact ⟨note, says_of_sharing hnote, hlater⟩
  · rintro note ⟨_, hmem, hnote⟩ line hlater
    obtain ⟨file, hfile, rfl⟩ := List.mem_map.mp hmem
    obtain ⟨owner, howner, hkey⟩ := List.mem_map.mp (howners.covers file hfile)
    have hsaid : Says Details.comments note (sharing owner.key filed) :=
      ⟨file.translation, mem_sharing_iff.mpr ⟨file, hfile, hkey.symm, rfl⟩, hnote⟩
    rw [← laterLines_comment] at hlater
    exact (mem_lines_text hlocale).mpr (.inr (.inr ⟨filedLines filed owner,
      List.mem_map_of_mem howner, .comment note, comment_mem_filedLines hsaid,
      List.mem_of_mem_tail hlater⟩))

end Catalogue.Pot

/-! ## Lines of what is extracted -/

/-- The notes of the messages that are filed under a domain. -/
def Message.notesIn (messages : List Message) (defaultDomain domain : String) : List String :=
  (messages.filter fun message => message.filedUnder defaultDomain = domain).filterMap Message.notes

theorem Catalogues.says_comments_iff (path : String) {note : String} {messages : List Message}
    {defaultDomain domain : String} :
    Says Details.comments note ((ofMessages defaultDomain path messages).translationsIn domain) ↔
      note ∈ Message.notesIn messages defaultDomain domain := by
  rw [says_ofMessages unites_comments]
  simp [Message.notesIn, Message.details, and_assoc]

/-- Every place of an entry is in the file of its messages. -/
theorem Catalogues.path_eq_of_said {reference : Reference} {messages : List Message}
    {defaultDomain path domain : String}
    (hsaid : Says (·.references.toList) reference
      ((ofMessages defaultDomain path messages).translationsIn domain)) :
    reference.path = path := by
  obtain ⟨message, -, -, hplace⟩ := (says_ofMessages unites_references ..).mp hsaid
  have hreference : reference ∈ [⟨path, message.line⟩] := hplace
  rw [List.mem_singleton.mp hreference]

namespace Catalogue.Pot

/-- The lines of the template of messages of one file. -/
theorem lines_format_ofMessages {locale path : String} (hlocale : '\n' ∉ locale.toList)
    (hpath : '\n' ∉ path.toList) (messages : List Message) (defaultDomain domain : String) :
    (∀ line ∈ lines (format ((Store.empty locale).importAll
        (.ofMessages defaultDomain path messages)).view domain),
      WellFormed locale line ∨
        ∃ note ∈ Message.notesIn messages defaultDomain domain, line ∈ laterLines note) ∧
    ∀ note ∈ Message.notesIn messages defaultDomain domain, ∀ line ∈ laterLines note,
      line ∈ lines (format ((Store.empty locale).importAll
        (.ofMessages defaultDomain path messages)).view domain) := by
  simp only [← Catalogues.says_comments_iff path]
  apply lines_format_importAll hlocale
  intro reference hsaid
  rwa [Catalogues.path_eq_of_said hsaid]

end Catalogue.Pot

namespace Template.Session

open TemplateMessages.Catalogue.Pot

/-- What is extracted from a template are the messages of its tree. -/
theorem extract_fst (session : Session) (defaultDomain code path : String) :
    (session.extract defaultDomain code path).1 =
      (session.parse ⟨code, Path.fileName? path⟩).1.map fun node =>
        .ofMessages defaultDomain (Path.reference path) (Message.ofNode node) := by
  unfold extract parse
  cases Source.read ⟨code, Path.fileName? path⟩ allTags <;> rfl

/-- Every line of the template of what has been extracted has a place there, or it is a later line
of a note; so all lines have one exactly when all later lines of notes do, and they do when every
note stays on one line. -/
theorem lines_format_extract (session : Session) {locale path : String}
    (hlocale : '\n' ∉ locale.toList) (hpath : '\n' ∉ path.toList) {defaultDomain code : String}
    {catalogues : Catalogues}
    (haccepted : (session.extract defaultDomain code path).1 = .ok catalogues) (domain : String) :
    ∃ node, (session.parse ⟨code, Path.fileName? path⟩).1 = .ok node ∧
      (∀ line ∈ lines (format ((Store.empty locale).importAll catalogues).view domain),
        WellFormed locale line ∨
          ∃ note ∈ Message.notesIn (Message.ofNode node) defaultDomain domain,
            line ∈ laterLines note) ∧
      ((∀ line ∈ lines (format ((Store.empty locale).importAll catalogues).view domain),
          WellFormed locale line) ↔
        ∀ note ∈ Message.notesIn (Message.ofNode node) defaultDomain domain,
          ∀ line ∈ laterLines note, WellFormed locale line) ∧
      ((∀ note ∈ Message.notesIn (Message.ofNode node) defaultDomain domain, '\n' ∉ note.toList) →
        ∀ line ∈ lines (format ((Store.empty locale).importAll catalogues).view domain),
          WellFormed locale line) := by
  rw [extract_fst] at haccepted
  cases hparse : (session.parse ⟨code, Path.fileName? path⟩).1 with
  | error error =>
      rw [hparse] at haccepted
      cases haccepted
  | ok node =>
      rw [hparse] at haccepted
      obtain rfl := Except.ok.inj haccepted
      obtain ⟨hplaced, hwritten⟩ := lines_format_ofMessages hlocale
        (Path.newline_notMem_reference hpath) (Message.ofNode node) defaultDomain domain
      have hnotes : (∀ note ∈ Message.notesIn (Message.ofNode node) defaultDomain domain,
          ∀ line ∈ laterLines note, WellFormed locale line) →
          ∀ line ∈ lines (format ((Store.empty locale).importAll (.ofMessages defaultDomain
            (Path.reference path) (Message.ofNode node))).view domain), WellFormed locale line := by
        intro hlater line hline
        rcases hplaced line hline with hfits | ⟨note, hnote, hmem⟩
        · exact hfits
        · exact hlater note hnote line hmem
      refine ⟨node, rfl, hplaced, ⟨fun hfits note hnote line hline => ?_, hnotes⟩,
        fun hone => hnotes fun note hnote line hline => ?_⟩
      · exact hfits line (hwritten note hnote line hline)
      · rw [laterLines, lines_of_notMem (hone note hnote)] at hline
        exact absurd hline List.not_mem_nil

/-- A note of two lines. -/
def twoLineNote : String :=
  "\x7b% trans %\x7da\x7b% notes %\x7done\ntwo\x7b% endtrans %\x7d"

theorem exists_parse_twoLineNote :
    ∃ node, ((start (.empty "en")).parse ⟨twoLineNote, Path.fileName? "a.twig"⟩).1 = .ok node ∧
      Message.notesIn (Message.ofNode node) "messages" "messages" = ["one\ntwo"] := by
  have hnotes : ((start (.empty "en")).parse ⟨twoLineNote, Path.fileName? "a.twig"⟩).1.toOption.any
      (fun node => Message.notesIn (Message.ofNode node) "messages" "messages" == ["one\ntwo"]) =
        true := by
    decide +kernel
  obtain ⟨node, hparse, hnotes⟩ := exists_ok_of_any hnotes
  exact ⟨node, hparse, eq_of_beq hnotes⟩

/-- A word alone on a line has no place in a template. -/
theorem not_wellFormed_two : ¬ WellFormed "en" "two".toList := by
  have hother : ∀ line, WellFormed "en" line → line ≠ ['t', 'w', 'o'] := by
    intro line hfits heq
    cases hfits with
    | empty => cases heq
    | comment text => exact absurd (List.cons.inj heq).1 (by decide)
    | field _ hread =>
        rw [heq] at hread
        cases hread
    | header hline =>
        have hquoted : ((headerLines "en").drop 2).all (fun line => line.toList.head? == some '"') =
            true := by
          decide
        have hhead := List.all_eq_true.mp hquoted _ hline
        rw [heq] at hhead
        cases hhead
  exact fun hfits => hother _ hfits rfl

/-- The second line of the note stands in the template as it is. -/
theorem lines_twoLineNote :
    ∃ catalogues, ((start (.empty "en")).extract "messages" twoLineNote "a.twig").1 = .ok catalogues ∧
      "two".toList ∈ lines (format ((Store.empty "en").importAll catalogues).view "messages") ∧
      ¬ WellFormed "en" "two".toList := by
  obtain ⟨node, hparse, hnotes⟩ := exists_parse_twoLineNote
  have haccepted := extract_fst (start (.empty "en")) "messages" twoLineNote "a.twig"
  rw [hparse] at haccepted
  refine ⟨_, haccepted, ?_, not_wellFormed_two⟩
  apply (lines_format_ofMessages (by decide) (by decide) _ "messages" "messages").2 "one\ntwo"
  · rw [hnotes]
    exact List.mem_singleton_self _
  · exact List.mem_singleton_self _

/-- All other lines of this template have their place. -/
theorem lines_format_extract_twoLineNote :
    '\n' ∉ "en".toList ∧ '\n' ∉ "a.twig".toList ∧
    ∃ catalogues, ((start (.empty "en")).extract "messages" twoLineNote "a.twig").1 = .ok catalogues ∧
      ∀ line ∈ lines (format ((Store.empty "en").importAll catalogues).view "messages"),
        WellFormed "en" line ∨ line = "two".toList := by
  have hlocale : '\n' ∉ "en".toList := by decide
  have hpath : '\n' ∉ "a.twig".toList := by decide
  obtain ⟨node, hparse, hnotes⟩ := exists_parse_twoLineNote
  have haccepted := extract_fst (start (.empty "en")) "messages" twoLineNote "a.twig"
  rw [hparse] at haccepted
  obtain ⟨other, hsame, hlines, -⟩ := lines_format_extract _ hlocale hpath haccepted "messages"
  obtain rfl := Except.ok.inj (hparse.symm.trans hsame)
  refine ⟨hlocale, hpath, _, haccepted, fun line hline => (hlines line hline).imp_right ?_⟩
  rintro ⟨note, hnote, hlater⟩
  rw [hnotes, List.mem_singleton] at hnote
  subst hnote
  exact List.mem_singleton.mp hlater

end Template.Session

end TemplateMessages

import Mathlib.Data.List.Basic
import TemplateMessages.Proofs.QuotedTexts
import TemplateMessages.Proofs.Separators

/-!
# Lines and blocks of a portable object template

A portable object template is read line by line.  A line is a comment, or a
keyword and a quoted text; an empty line ends a block, and the first block is
the header.  What has been written from lines that fit on a line each is read
back as those lines, block by block.
-/

namespace TemplateMessages.Catalogue.Pot

inductive Line where
  | comment (text : String)
  | flags (text : String)
  | sources (text : String)
  | field (keyword text : String)
deriving DecidableEq, Repr

/-! ## Reading -/

/-- The text behind a mark at the start of a line. -/
def behind? (mark : String) (line : List Char) : Option String :=
  (mark.toList.isPrefixOf? line).map String.ofList

/-- A keyword, a space and a quoted text, whose quote closes at the end of the line. -/
def readField (line : List Char) : Option Line :=
  match line.dropWhile (· != ' ') with
  | ' ' :: '"' :: quoted =>
      if quoted.getLast? = some '"' then
        (unescape? quoted.dropLast).map fun text =>
          .field (.ofList (line.takeWhile (· != ' '))) (.ofList text)
      else none
  | _ => none

def readLine (line : List Char) : Option Line :=
  match behind? "#. TRANSLATORS: " line, behind? "#, " line, behind? "#: " line with
  | some text, _, _ => some (.comment text)
  | none, some text, _ => some (.flags text)
  | none, none, some text => some (.sources text)
  | none, none, none => readField line

/-- The blocks of a text: its lines, apart where a line is empty. -/
def paragraphs (text : String) : List (List (List Char)) :=
  ((text.toList.splitOn '\n').splitOn []).filter fun paragraph => !paragraph.isEmpty

/-- The lines of every block behind the header, when all of them can be read. -/
def readBlocks (text : String) : Option (List (List Line)) :=
  (paragraphs text).tail.mapM fun paragraph => paragraph.mapM readLine

/-! ## Writing -/

namespace Line

def written : Line → String
  | comment text => "#. TRANSLATORS: " ++ text
  | flags text => "#, " ++ text
  | sources text => "#: " ++ text
  | field keyword text => keyword ++ " \"" ++ escape text ++ "\""

-- Unfolding `written` compares the literals character by character, so its cases are lemmas.
@[simp]
theorem written_comment (text : String) : (comment text).written = "#. TRANSLATORS: " ++ text := rfl

@[simp]
theorem written_flags (text : String) : (flags text).written = "#, " ++ text := rfl

@[simp]
theorem written_sources (text : String) : (sources text).written = "#: " ++ text := rfl

@[simp]
theorem written_field (keyword text : String) :
    (field keyword text).written = keyword ++ " \"" ++ escape text ++ "\"" := rfl

/-- The line fits on a line, and a keyword is told from the marks and from its text. -/
def Fits : Line → Prop
  | comment text | flags text | sources text => '\n' ∉ text.toList
  | field keyword _ => ∀ c ∈ keyword.toList, c ≠ ' ' ∧ c ≠ '\n' ∧ c ≠ '#'

/-- The keywords of blocks; a message of two rules has two forms. -/
def keywords : List String :=
  ["msgctxt", "msgid", "msgid_plural", "msgstr", "msgstr[0]", "msgstr[1]"]

theorem fits_field {keyword : String} (hkeyword : keyword ∈ keywords) (text : String) :
    (field keyword text).Fits := by
  have hall : keywords.all
      (fun keyword => keyword.toList.all fun c => c != ' ' && c != '\n' && c != '#') = true := by
    decide
  intro c hc
  have hchar := List.all_eq_true.mp (List.all_eq_true.mp hall keyword hkeyword) c hc
  simpa [and_assoc] using hchar

theorem newline_notMem_written {line : Line} (hfits : line.Fits) : '\n' ∉ line.written.toList := by
  cases line with
  | comment text => simpa [Fits] using hfits
  | flags text => simpa [Fits] using hfits
  | sources text => simpa [Fits] using hfits
  | field keyword text =>
      have hkeyword : '\n' ∉ keyword.toList := fun hmem => (hfits '\n' hmem).2.1 rfl
      simp [hkeyword, newline_notMem_escape]

theorem written_ne_nil (line : Line) : line.written.toList ≠ [] := by
  cases line <;> simp

theorem behind?_self (mark text : String) : behind? mark (mark ++ text).toList = some text := by
  have hrest : mark.toList.isPrefixOf? (mark ++ text).toList = some text.toList :=
    List.isPrefixOf?_eq_some_iff_append_eq.mpr String.toList_append.symm
  rw [behind?, hrest, Option.map_some, String.ofList_toList]

/-- A line that starts with another character is not marked. -/
theorem behind?_of_head {mark : String} {line : List Char}
    (hmark : mark.toList.head? = some '#') (hline : line.head? ≠ some '#') :
    behind? mark line = none := by
  cases hchars : mark.toList with
  | nil => simp [hchars] at hmark
  | cons first others =>
      obtain rfl : first = '#' := by simpa [hchars] using hmark
      cases line with
      | nil => rw [behind?, hchars]; rfl
      | cons c rest =>
          have hne : ('#' == c) = false :=
            beq_eq_false_iff_ne.mpr fun heq => hline (congrArg some heq.symm)
          rw [behind?, hchars, List.isPrefixOf?, hne]
          rfl

theorem toList_written_field (keyword text : String) :
    (field keyword text).written.toList =
      keyword.toList ++ ' ' :: '"' :: ((escape text).toList ++ ['"']) := by
  simp

theorem readField_written {keyword : String} (hspace : ∀ c ∈ keyword.toList, c ≠ ' ')
    (text : String) :
    readField (field keyword text).written.toList = some (.field keyword text) := by
  have hkeyword : ∀ c ∈ keyword.toList, (c != ' ') = true :=
    fun c hc => bne_iff_ne.mpr (hspace c hc)
  have hbehind : (keyword.toList ++ ' ' :: '"' :: ((escape text).toList ++ ['"'])).dropWhile
      (· != ' ') = ' ' :: '"' :: ((escape text).toList ++ ['"']) := by
    rw [List.dropWhile_append_of_pos hkeyword, List.dropWhile_cons_of_neg (by decide)]
  have hbefore : (keyword.toList ++ ' ' :: '"' :: ((escape text).toList ++ ['"'])).takeWhile
      (· != ' ') = keyword.toList :=
    takeWhile_append_stop hkeyword rfl _
  rw [toList_written_field, readField, hbehind, hbefore]
  simp [unescape?_escape]

theorem readLine_written {line : Line} (hfits : line.Fits) :
    readLine line.written.toList = some line := by
  cases line with
  | comment text => rw [written_comment, readLine, behind?_self]
  | flags text =>
      have hcomment : behind? "#. TRANSLATORS: " ("#, " ++ text).toList = none := by
        simp [behind?, List.isPrefixOf?]
      rw [written_flags, readLine, behind?_self, hcomment]
  | sources text =>
      have hcomment : behind? "#. TRANSLATORS: " ("#: " ++ text).toList = none := by
        simp [behind?, List.isPrefixOf?]
      have hflags : behind? "#, " ("#: " ++ text).toList = none := by
        simp [behind?, List.isPrefixOf?]
      rw [written_sources, readLine, behind?_self, hcomment, hflags]
  | field keyword text =>
      have hhead : (field keyword text).written.toList.head? ≠ some '#' := by
        rw [toList_written_field]
        cases hchars : keyword.toList with
        | nil => simp
        | cons c rest =>
            have hmem : c ∈ keyword.toList := hchars ▸ List.mem_cons_self
            exact fun heq => (hfits c hmem).2.2 (Option.some.inj heq)
      rw [readLine, behind?_of_head rfl hhead, behind?_of_head rfl hhead, behind?_of_head rfl hhead]
      exact readField_written (fun c hc => (hfits c hc).1) text

end Line

/-- Lines with their ends, one after the other. -/
def joined (lines : List String) : String :=
  String.join (lines.map (· ++ "\n"))

def blockText (lines : List Line) : String :=
  joined (lines.map Line.written)

def headerLines (locale : String) : List String :=
  ["msgid \"\"", "msgstr \"\"", "\"Content-Type: text/plain; charset=UTF-8\\n\"",
    "\"Content-Transfer-Encoding: 8bit\\n\"", "\"Language: " ++ locale ++ "\\n\""]

/-! ## Splitting what has been written -/

/-- The characters of lines with their ends. -/
def ended (lines : List (List Char)) : List Char :=
  lines.flatMap (· ++ ['\n'])

theorem ended_append (first second : List (List Char)) :
    ended (first ++ second) = ended first ++ ended second :=
  List.flatMap_append

/-- Text behind text breaks where each breaks, and behind the last end there is an empty line. -/
theorem splitOn_ended (texts : List (List Char)) :
    (ended texts).splitOn '\n' = texts.flatMap (·.splitOn '\n') ++ [[]] := by
  induction texts with
  | nil => rfl
  | cons text rest ih =>
      rw [ended, List.flatMap_cons, List.append_assoc, List.singleton_append,
        List.splitOn_append_cons_self, List.flatMap_cons, List.append_assoc]
      exact congrArg (text.splitOn '\n' ++ ·) ih

theorem flatMap_splitOn_of_notMem {lines : List (List Char)} (hlines : ∀ line ∈ lines, '\n' ∉ line) :
    lines.flatMap (·.splitOn '\n') = lines := by
  calc
    lines.flatMap (·.splitOn '\n') = lines.flatMap fun line => [line] :=
      List.flatMap_congr fun line hline => List.splitOn_eq_singleton (hlines line hline)
    _ = lines := List.flatMap_singleton' lines

/-- An empty line between blocks is a line end between their texts. -/
theorem intercalate_ended (blocks : List (List (List Char))) :
    ['\n'].intercalate (blocks.map ended) = ended ([[]].intercalate blocks) := by
  induction blocks with
  | nil => rfl
  | cons block rest ih =>
      cases rest with
      | nil => simp
      | cons next others =>
          rw [List.map_cons, List.map_cons, List.intercalate_cons_cons,
            List.intercalate_cons_cons, ended_append, ended_append, ← ih]
          rfl

theorem toList_joined (lines : List String) :
    (joined lines).toList = ended (lines.map String.toList) := by
  simp only [joined, ended, String.toList_join, List.flatMap_map, String.toList_append]
  rfl

theorem header_eq (locale : String) :
    header locale = joined (headerLines locale ++ [""]) := by
  have hfixed : "msgid \"\"\nmsgstr \"\"\n\"Content-Type: text/plain; charset=UTF-8\\n\"\n" ++
      "\"Content-Transfer-Encoding: 8bit\\n\"\n\"Language: " =
      "msgid \"\"" ++ "\n" ++ ("msgstr \"\"" ++ "\n" ++
        ("\"Content-Type: text/plain; charset=UTF-8\\n\"" ++ "\n" ++
          ("\"Content-Transfer-Encoding: 8bit\\n\"" ++ "\n" ++ "\"Language: "))) := by
    decide
  have hend : "\\n\"\n\n" = "\\n\"" ++ "\n" ++ ("" ++ "\n" ++ "") := by
    decide
  calc
    header locale = _ := congrArg₂ (fun before after => before ++ locale ++ after) hfixed hend
    _ = joined (headerLines locale ++ [""]) := by
      simp only [joined, headerLines, List.cons_append, List.nil_append, List.map_cons, List.map_nil,
        String.join_cons, String.join_nil, String.append_assoc]

theorem headerLines_fit {locale : String} (hlocale : '\n' ∉ locale.toList) :
    ∀ line ∈ headerLines locale, '\n' ∉ line.toList ∧ line.toList ≠ [] := by
  have hlanguage : '\n' ∉ ("\"Language: " ++ locale ++ "\\n\"").toList := by
    simp [hlocale]
  have hne : ("\"Language: " ++ locale ++ "\\n\"").toList ≠ [] := by
    simp
  simp only [headerLines, List.forall_mem_cons]
  exact ⟨by decide, by decide, by decide, by decide, ⟨hlanguage, hne⟩, nofun⟩

/-- Lines that are not empty stand together between the empty ones. -/
theorem filter_splitOn_intercalate {head : List (List Char)} {blocks : List (List (List Char))}
    (hhead : head ≠ []) (hfull : [] ∉ head) (hblocks : ∀ block ∈ blocks, block ≠ [] ∧ [] ∉ block) :
    ((head ++ [] :: ([[]].intercalate blocks ++ [[]])).splitOn []).filter
      (fun paragraph => !paragraph.isEmpty) = head :: blocks := by
  have hkept : blocks.filter (fun paragraph => !paragraph.isEmpty) = blocks := by
    apply List.filter_eq_self.mpr
    intro block hblock
    simpa using (hblocks block hblock).1
  have hsplit : (([[]].intercalate blocks).splitOn []).filter (fun paragraph => !paragraph.isEmpty) =
      blocks := by
    by_cases hnone : blocks = []
    · rw [hnone]
      rfl
    · rw [List.splitOn_intercalate [] (fun block hblock => (hblocks block hblock).2) hnone, hkept]
  rw [List.splitOn_append_cons_self_of_not_mem hfull, List.splitOn_append_cons_self,
    List.filter_cons_of_pos (by simpa using hhead), List.filter_append, hsplit]
  simp

/-- The characters of the lines of blocks. -/
def writtenLines (blocks : List (List Line)) : List (List (List Char)) :=
  blocks.map fun block => block.map fun line => line.written.toList

/-- The text of a header and of blocks, line by line. -/
theorem toList_written (locale : String) (blocks : List (List Line)) :
    (header locale ++ "\n".intercalate (blocks.map blockText)).toList =
      ended ((headerLines locale).map String.toList ++
        [] :: [[]].intercalate (writtenLines blocks)) := by
  have htexts : (blocks.map blockText).map String.toList = (writtenLines blocks).map ended := by
    simp only [writtenLines, List.map_map]
    apply List.map_congr_left
    intro block _
    simp only [Function.comp_apply, blockText, toList_joined, List.map_map]
    rfl
  have hend : "\n".toList = ['\n'] := rfl
  have hempty : "".toList = [] := rfl
  rw [String.toList_append, header_eq, toList_joined, String.toList_intercalate, htexts, hend,
    intercalate_ended, ← ended_append, List.map_append, List.map_singleton, hempty,
    List.append_assoc, List.singleton_append]

theorem writtenLines_fit {blocks : List (List Line)}
    (hblocks : ∀ block ∈ blocks, block ≠ [] ∧ ∀ line ∈ block, line.Fits) :
    ∀ block ∈ writtenLines blocks, block ≠ [] ∧ ∀ line ∈ block, '\n' ∉ line ∧ line ≠ [] := by
  intro block hblock
  obtain ⟨lines, hlines, rfl⟩ := List.mem_map.mp hblock
  obtain ⟨hne, hfits⟩ := hblocks lines hlines
  constructor
  · simpa using hne
  · intro line hline
    obtain ⟨read, hread, rfl⟩ := List.mem_map.mp hline
    exact ⟨Line.newline_notMem_written (hfits read hread), Line.written_ne_nil read⟩

/-- No line of a text breaks, when none of its header and none of its blocks does. -/
theorem newline_notMem_of_mem_text {head : List (List Char)} {blocks : List (List (List Char))}
    (hhead : ∀ line ∈ head, '\n' ∉ line) (hblocks : ∀ block ∈ blocks, ∀ line ∈ block, '\n' ∉ line) :
    ∀ line ∈ head ++ [] :: [[]].intercalate blocks, '\n' ∉ line := by
  intro line hline
  rcases List.mem_append.mp hline with hline | hline
  · exact hhead line hline
  rcases List.mem_cons.mp hline with rfl | hline
  · exact List.not_mem_nil
  rcases mem_or_of_mem_intercalate hline with hempty | ⟨block, hblock, hmem⟩
  · rw [List.mem_singleton.mp hempty]
    exact List.not_mem_nil
  · exact hblocks block hblock line hmem

/-- The blocks of a written text are what it has been written from. -/
theorem paragraphs_written {locale : String} (hlocale : '\n' ∉ locale.toList)
    {blocks : List (List Line)} (hblocks : ∀ block ∈ blocks, block ≠ [] ∧ ∀ line ∈ block, line.Fits) :
    paragraphs (header locale ++ "\n".intercalate (blocks.map blockText)) =
      (headerLines locale).map String.toList :: writtenLines blocks := by
  have hhead : ∀ line ∈ (headerLines locale).map String.toList, '\n' ∉ line ∧ line ≠ [] := by
    intro line hline
    obtain ⟨text, htext, rfl⟩ := List.mem_map.mp hline
    exact headerLines_fit hlocale text htext
  have hwritten := writtenLines_fit hblocks
  have hlines := newline_notMem_of_mem_text (fun line hline => (hhead line hline).1)
    fun block hblock line hline => ((hwritten block hblock).2 line hline).1
  rw [paragraphs, toList_written, splitOn_ended, flatMap_splitOn_of_notMem hlines, List.append_assoc, List.cons_append]
  apply filter_splitOn_intercalate
  · simp [headerLines]
  · intro hmem
    exact (hhead _ hmem).2 rfl
  · intro block hblock
    exact ⟨(hwritten block hblock).1, fun hmem => ((hwritten block hblock).2 _ hmem).2 rfl⟩

theorem mapM_map_eq_some {α β : Type} {write : α → β} {read : β → Option α} {values : List α}
    (hread : ∀ value ∈ values, read (write value) = some value) :
    (values.map write).mapM read = some values := by
  induction values with
  | nil => rfl
  | cons value rest ih =>
      obtain ⟨hvalue, hrest⟩ := List.forall_mem_cons.mp hread
      rw [List.map_cons, List.mapM_cons, hvalue, ih hrest]
      rfl

/-- What has been written from lines that fit is read back. -/
theorem readBlocks_written {locale : String} (hlocale : '\n' ∉ locale.toList)
    {blocks : List (List Line)} (hblocks : ∀ block ∈ blocks, block ≠ [] ∧ ∀ line ∈ block, line.Fits) :
    readBlocks (header locale ++ "\n".intercalate (blocks.map blockText)) = some blocks := by
  rw [readBlocks, paragraphs_written hlocale hblocks, List.tail_cons, writtenLines]
  apply mapM_map_eq_some
  intro block hblock
  apply mapM_map_eq_some
  intro line hline
  exact Line.readLine_written ((hblocks block hblock).2 line hline)

end TemplateMessages.Catalogue.Pot

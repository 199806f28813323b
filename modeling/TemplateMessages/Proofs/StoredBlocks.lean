import Mathlib.Data.Set.List
import TemplateMessages.Proofs.BlockLines
import TemplateMessages.Proofs.StoredKeys

/-!
# Blocks of stored entries

A template has one block for every key of its domain.  The block has the notes
and the places of all entries that share the key, the context, and the texts that
the key is split into.  Whether an entry has a plural is not stored: without one
it is written as a text alone when its text does not split into two rules, and as
a text and a plural when it does.
-/

namespace TemplateMessages.Catalogue.Pot

open TemplateMessages.Catalogue.Store

/-! ## Lines of a block -/

theorem blockText_append (first second : List Line) :
    blockText (first ++ second) = blockText first ++ blockText second := by
  simp only [blockText, joined, List.map_append, String.join_append]

theorem field_eq_blockText (keyword text : String) :
    field keyword text = blockText [.field keyword text] := by
  apply String.toList_inj.mp
  simp [field, blockText, joined]

theorem commentLines_eq_blockText (comments : List String) :
    String.join (comments.map fun comment => "#. TRANSLATORS: " ++ comment ++ "\n") =
      blockText (comments.map .comment) := by
  rw [blockText, joined, List.map_map, List.map_map]
  rfl

theorem sourceLine_eq_blockText (sources : List String) :
    (if sources.isEmpty then "" else "#: " ++ " ".intercalate sources ++ "\n") =
      blockText (if sources.isEmpty then [] else [.sources (" ".intercalate sources)]) := by
  cases sources.isEmpty with
  | true => rfl
  | false => simp [blockText, joined]

theorem annotations_eq_blockText (comments sources : List String) (context : Option String) :
    annotations ⟨comments, [], sources, context⟩ =
      blockText (comments.map .comment ++
        if sources.isEmpty then [] else [.sources (" ".intercalate sources)]) := by
  rw [blockText_append, ← commentLines_eq_blockText, ← sourceLine_eq_blockText]
  simp [annotations]

theorem contextField_eq_blockText (context : Option String) :
    (match context with
      | some context => field "msgctxt" context
      | none => "") = blockText (context.toList.map (.field "msgctxt")) := by
  cases context with
  | none => rfl
  | some context => exact field_eq_blockText "msgctxt" context

/-- Two rules are a singular and a plural, with an empty translation each. -/
theorem messageFields_of_two {id singular plural : String}
    (hrules : Plural.standardRules id = .ok [singular, plural]) :
    messageFields id id = blockText [.field "msgid" singular, .field "msgid_plural" plural,
      .field "msgstr[0]" "", .field "msgstr[1]" ""] := by
  have hsplit : rulesOf id = [singular, plural] := by
    rw [rulesOf, hrules]
  have hforms : pluralFields 2 = blockText [.field "msgstr[0]" "", .field "msgstr[1]" ""] := by
    decide
  calc
    messageFields id id = field "msgid" singular ++ field "msgid_plural" plural ++ pluralFields 2 := by
      rw [messageFields, hsplit]
      rfl
    _ = blockText ([.field "msgid" singular] ++ [.field "msgid_plural" plural] ++
        [.field "msgstr[0]" "", .field "msgstr[1]" ""]) := by
      rw [blockText_append, blockText_append, ← field_eq_blockText, ← field_eq_blockText, hforms]

/-- Any other number of rules is a plain text. -/
theorem messageFields_of_not_two {id : String} (target : String)
    (hrules : ∀ rules, Plural.standardRules id = .ok rules → rules.length ≠ 2) :
    messageFields id target = blockText [.field "msgid" id, .field "msgstr" ""] := by
  have hlength : (rulesOf id).length ≠ 2 := by
    unfold rulesOf
    split
    case h_1 rules hok => exact hrules rules hok
    case h_2 => decide
  have hempty : "msgstr \"\"\n" = blockText [.field "msgstr" ""] := by
    decide
  unfold messageFields
  split
  case h_1 singular plural hsplit =>
    rw [hsplit] at hlength
    exact absurd rfl hlength
  case h_2 =>
    calc
      field "msgid" id ++ "msgstr \"\"\n" = _ := congrArg (field "msgid" id ++ ·) hempty
      _ = blockText ([.field "msgid" id] ++ [.field "msgstr" ""]) := by
        rw [blockText_append, field_eq_blockText "msgid"]

/-- The lines of a text, and of its plural when the text splits into two rules. -/
def textLines (text : String) : List Line :=
  match Plural.standardRules text with
  | .ok [singular, plural] => [.field "msgid" singular, .field "msgid_plural" plural,
      .field "msgstr[0]" "", .field "msgstr[1]" ""]
  | _ => [.field "msgid" text, .field "msgstr" ""]

/-- A text is written alone unless it splits into two rules. -/
theorem textLines_eq_iff {text : String} :
    textLines text = [.field "msgid" text, .field "msgstr" ""] ↔
      ∀ rules, Plural.standardRules text = .ok rules → rules.length ≠ 2 := by
  unfold textLines
  split
  case h_1 singular plural hrules =>
    constructor
    · intro h
      simp at h
    · intro h
      exact absurd rfl (h [singular, plural] hrules)
  case h_2 hrules =>
    constructor
    · intro _ rules hok hlength
      obtain ⟨singular, plural, rfl⟩ := List.length_eq_two.mp hlength
      exact hrules singular plural hok
    · intro _
      rfl

theorem two_rules_or_not (text : String) :
    (∃ singular plural, Plural.standardRules text = .ok [singular, plural]) ∨
      ∀ rules, Plural.standardRules text = .ok rules → rules.length ≠ 2 := by
  by_cases hplain : ∀ rules, Plural.standardRules text = .ok rules → rules.length ≠ 2
  · exact .inr hplain
  · push Not at hplain
    obtain ⟨rules, hrules, hlength⟩ := hplain
    obtain ⟨singular, plural, rfl⟩ := List.length_eq_two.mp hlength
    exact .inl ⟨singular, plural, hrules⟩

theorem messageFields_eq_blockText (text : String) :
    messageFields text text = blockText (textLines text) := by
  rcases two_rules_or_not text with ⟨singular, plural, hrules⟩ | hplain
  · rw [messageFields_of_two hrules, textLines, hrules]
  · rw [textLines_eq_iff.mpr hplain, messageFields_of_not_two text hplain]

/-- The lines that note what entries say and where they stand. -/
def noteLines (translations : List Translation) : List Line :=
  (comments translations).map .comment ++
    if (sources translations).isEmpty then []
    else [.sources (" ".intercalate (sources translations))]

/-! ## Blocks of an import -/

/-- The blocks of a template, one for every message. -/
def blocks (view : Store.View) (domain : String) : List String :=
  (view.all domain).map fun message =>
    block (view.metadata? message.1 domain) message.1 message.2

theorem format_eq (view : Store.View) (domain : String) :
    format view domain = header view.locale ++ "\n".intercalate (blocks view domain) := rfl

theorem block_mem_blocks {store : Store} {domain key target : String}
    (hmem : (key, target) ∈ store.all domain) :
    block (store.metadata? key domain) key target ∈ blocks store.view domain :=
  List.mem_map.mpr ⟨(key, target), hmem, rfl⟩

/-- The lines of the block of an entry, with the notes of all that share its key. -/
def filedLines (filed : List Filed) (file : Filed) : List Line :=
  noteLines (sharing file.key filed) ++ file.translation.key.context.toList.map (.field "msgctxt") ++
    textLines (messageId file.translation)

theorem mem_textLines {text : String} {line : Line} (hline : line ∈ textLines text) :
    ∃ keyword ∈ Line.keywords, ∃ written, line = .field keyword written := by
  unfold textLines at hline
  split at hline <;> simp only [List.mem_cons, List.not_mem_nil, or_false] at hline
  case h_1 =>
    rcases hline with rfl | rfl | rfl | rfl <;> exact ⟨_, by decide, _, rfl⟩
  case h_2 =>
    rcases hline with rfl | rfl <;> exact ⟨_, by decide, _, rfl⟩

/-- The lines of a block are notes, places, and fields. -/
theorem mem_filedLines {filed : List Filed} {file : Filed} {line : Line}
    (hline : line ∈ filedLines filed file) :
    (∃ comment ∈ comments (sharing file.key filed), line = .comment comment) ∨
      line = .sources (" ".intercalate (sources (sharing file.key filed))) ∨
      ∃ keyword ∈ Line.keywords, ∃ written, line = .field keyword written := by
  rw [filedLines, noteLines, List.mem_append, List.mem_append, List.mem_append] at hline
  rcases hline with ((hcomment | hsources) | hcontext) | htext
  · obtain ⟨comment, hmem, rfl⟩ := List.mem_map.mp hcomment
    exact .inl ⟨comment, hmem, rfl⟩
  · split at hsources
    · exact absurd hsources List.not_mem_nil
    · exact .inr (.inl (List.mem_singleton.mp hsources))
  · obtain ⟨context, -, rfl⟩ := List.mem_map.mp hcontext
    exact .inr (.inr ⟨"msgctxt", by decide, context, rfl⟩)
  · exact .inr (.inr (mem_textLines htext))

theorem block_of_filed {store : Store} {reserved : List String} {domain : String}
    {filed : List Filed} (hkeeps : Keeps store domain filed) (hfit : KeysFit reserved filed)
    {file : Filed} (hfile : file ∈ filed) :
    block (store.metadata? file.key domain) file.key (messageId file.translation) =
      blockText (filedLines filed file) := by
  rw [hkeeps.metadata?_eq hfit hfile, block, hfit.dropContext_eq hfile rfl, filedLines,
    blockText_append, blockText_append, noteLines, ← messageFields_eq_blockText, ← contextField_eq_blockText,
    ← annotations_eq_blockText]
  rfl

/-- One entry for every key. -/
structure OwnKeys (filed owners : List Filed) : Prop where
  mem : ∀ file ∈ owners, file ∈ filed
  nodup : (owners.map Filed.key).Nodup
  covers : ∀ file ∈ filed, file.key ∈ owners.map Filed.key

/-- A domain has the block of one entry for every key. -/
theorem exists_owners {store : Store} {reserved : List String} {domain : String}
    {filed : List Filed} (hkeeps : Keeps store domain filed) (hfit : KeysFit reserved filed) :
    ∃ owners, OwnKeys filed owners ∧
      blocks store.view domain = owners.map fun file => blockText (filedLines filed file) := by
  have hnodup : (Assoc.keys (store.all domain)).Nodup :=
    ((store.messages.get? domain).getD .empty).nodup
  obtain ⟨owners, howners⟩ : store.all domain ∈ Set.range (List.map
      fun file : {file // file ∈ filed} => (file.1.key, messageId file.1.translation)) := by
    rw [Set.range_list_map]
    intro message hmessage
    obtain ⟨file, hfile, hkey⟩ := List.mem_map.mp (hkeeps.mem_keys.mp (List.mem_map_of_mem hmessage))
    have htarget := hkeeps.get?_all hfit hfile
    rw [hkey, (Assoc.get?_eq_some_iff hnodup).mpr hmessage] at htarget
    exact ⟨⟨file, hfile⟩, Prod.ext hkey (Option.some.inj htarget).symm⟩
  have hkeys : (owners.map Subtype.val).map Filed.key = Assoc.keys (store.all domain) := by
    rw [← howners, Assoc.keys, List.map_map, List.map_map]
    rfl
  refine ⟨owners.map Subtype.val, ⟨?_, ?_, ?_⟩, ?_⟩
  · intro file hfile
    obtain ⟨owner, -, rfl⟩ := List.mem_map.mp hfile
    exact owner.2
  · rw [hkeys]
    exact hnodup
  · intro file hfile
    rw [hkeys]
    exact hkeeps.mem_keys.mpr (List.mem_map_of_mem hfile)
  · have hview : blocks store.view domain = (store.all domain).map fun message =>
        block (store.metadata? message.1 domain) message.1 message.2 := rfl
    rw [hview, ← howners, List.map_map, List.map_map]
    exact List.map_congr_left fun owner _ => block_of_filed hkeeps hfit owner.2

/-- The template of an import: the entries of the domain, and a block for each key of theirs. -/
theorem exists_format_eq (locale : String) (catalogues : Catalogues) (domain : String) :
    ∃ filed owners : List Filed, filed.map Filed.translation = catalogues.translationsIn domain ∧
      KeysFit (idsWithoutContext (catalogues.translationsIn domain)) filed ∧
      OwnKeys filed owners ∧
      blocks ((Store.empty locale).importAll catalogues).view domain =
        (owners.map (filedLines filed)).map blockText ∧
      format ((Store.empty locale).importAll catalogues).view domain =
        header locale ++ "\n".intercalate ((owners.map (filedLines filed)).map blockText) := by
  obtain ⟨filed, htranslations, hfit, hkeeps⟩ := exists_filed_importAll locale catalogues domain
  obtain ⟨owners, howners, hblocks⟩ := exists_owners hkeeps hfit
  have hlocale : ((Store.empty locale).importAll catalogues).view.locale = locale :=
    locale_importAll (.empty locale) catalogues
  have hwritten : blocks ((Store.empty locale).importAll catalogues).view domain =
      (owners.map (filedLines filed)).map blockText := by
    rw [hblocks, List.map_map]
    rfl
  exact ⟨filed, owners, htranslations, hfit, howners, hwritten, by rw [format_eq, hwritten, hlocale]⟩

/-- Every entry without a plural has a block with its context and its text; there is a plural in
the block exactly when the text splits into two rules. -/
theorem blocks_importAll_of_no_plural (locale : String) (catalogues : Catalogues)
    (domain : String) :
    format ((Store.empty locale).importAll catalogues).view domain = header locale ++
      "\n".intercalate (blocks ((Store.empty locale).importAll catalogues).view domain) ∧
    ∃ filed : List Filed, filed.map Filed.translation = catalogues.translationsIn domain ∧
      ∀ file ∈ filed, file.translation.details.plural = none →
        blockText (noteLines (sharing file.key filed) ++
            file.translation.key.context.toList.map (.field "msgctxt") ++
            textLines file.translation.key.original) ∈
          blocks ((Store.empty locale).importAll catalogues).view domain ∧
        (textLines file.translation.key.original =
            [.field "msgid" file.translation.key.original, .field "msgstr" ""] ↔
          ∀ rules, Plural.standardRules file.translation.key.original = .ok rules →
            rules.length ≠ 2) := by
  obtain ⟨filed, htranslations, hfit, hkeeps⟩ := exists_filed_importAll locale catalogues domain
  have hlocale : ((Store.empty locale).importAll catalogues).view.locale = locale :=
    locale_importAll (.empty locale) catalogues
  refine ⟨?_, filed, htranslations, fun file hfile hplural => ⟨?_, textLines_eq_iff⟩⟩
  · rw [format_eq, hlocale]
  · have hblock := block_of_filed hkeeps hfit hfile
    rw [filedLines, messageId_of_none hplural] at hblock
    have htarget := hkeeps.get?_all hfit hfile
    rw [messageId_of_none hplural] at htarget
    rw [← hblock]
    exact block_mem_blocks (Assoc.mem_of_get? htarget)

/-- A single text without a plural. -/
def yesNo : Catalogues :=
  Catalogues.add .empty "messages" ⟨⟨none, "Yes|No"⟩, .empty⟩

/-- The text is written as a text and its plural. -/
theorem blocks_yesNo :
    (yesNo.translationsIn "messages").map (·.details.plural) = [none] ∧
    format ((Store.empty "en").importAll yesNo).view "messages" =
      header "en" ++ "msgid \"Yes\"\nmsgid_plural \"No\"\nmsgstr[0] \"\"\nmsgstr[1] \"\"\n" := by
  have hblocks : blocks ((Store.empty "en").importAll yesNo).view "messages" =
      ["msgid \"Yes\"\nmsgid_plural \"No\"\nmsgstr[0] \"\"\nmsgstr[1] \"\"\n"] := by
    decide
  refine ⟨rfl, ?_⟩
  rw [format_eq, hblocks]
  rfl

end TemplateMessages.Catalogue.Pot

import TemplateMessages.Extraction.Collection
import TemplateMessages.Proofs.KeyClashes
import TemplateMessages.Proofs.PotReading

/-!
# What tells blocks apart

A reader tells the blocks of a template apart by a context and a text, and takes
the block without a context whose text is empty for the header.  The text of a
block is the first of the rules that an identifier splits into, when there are
two, so texts that are different in the catalogue may be one in the template.
Entries whose rules are their own texts keep the identity that they have there,
but nothing keeps an empty text out.
-/

namespace TemplateMessages.Catalogue.Pot

open TemplateMessages.Catalogue.Store

/-! ## Identities -/

/-- The text of the first field of a keyword. -/
def fieldText? (keyword : String) (lines : List Line) : Option String :=
  lines.findSome? fun line =>
    match line with
    | .field word text => if word = keyword then some text else none
    | _ => none

/-- What a block is told by: its context, and its text. -/
def identity (lines : List Line) : Option String × Option String :=
  (fieldText? "msgctxt" lines, fieldText? "msgid" lines)

/-- The identity of the header. -/
def headerIdentity : Option String × Option String :=
  (none, some "")

/-- The text of the block of an identifier: the first of exactly two rules. -/
def shownText (id : String) : String :=
  match Plural.standardRules id with
  | .ok [singular, _] => singular
  | _ => id

/-- The identity that an entry is written with. -/
def shown (translation : Translation) : Option String × Option String :=
  (translation.key.context, some (shownText (messageId translation)))

theorem fieldText?_append (keyword : String) (first second : List Line) :
    fieldText? keyword (first ++ second) =
      (fieldText? keyword first).or (fieldText? keyword second) :=
  List.findSome?_append

theorem fieldText?_noteLines (keyword : String) (translations : List Translation) :
    fieldText? keyword (noteLines translations) = none := by
  rw [fieldText?, List.findSome?_eq_none_iff, noteLines]
  intro line hline
  rcases List.mem_append.mp hline with hcomment | hsources
  · obtain ⟨comment, -, rfl⟩ := List.mem_map.mp hcomment
    rfl
  · split at hsources
    · exact absurd hsources List.not_mem_nil
    · rw [List.mem_singleton.mp hsources]

theorem identity_contextLines (context : Option String) :
    identity (context.toList.map (.field "msgctxt")) = (context, none) := by
  cases context <;> rfl

theorem shownText_of_two {id singular plural : String}
    (hrules : Plural.standardRules id = .ok [singular, plural]) : shownText id = singular := by
  rw [shownText, hrules]

theorem shownText_of_not_two {id : String}
    (hrules : ∀ rules, Plural.standardRules id = .ok rules → rules.length ≠ 2) :
    shownText id = id := by
  unfold shownText
  split
  case h_1 singular plural hok => exact absurd rfl (hrules [singular, plural] hok)
  case h_2 => rfl

theorem identity_textLines (id : String) : identity (textLines id) = (none, some (shownText id)) := by
  rcases two_rules_or_not id with ⟨singular, plural, hrules⟩ | hplain
  · rw [textLines, shownText_of_two hrules, hrules]
    rfl
  · rw [textLines_eq_iff.mpr hplain, shownText_of_not_two hplain]
    rfl

/-- A block is told by what its entry is written with. -/
theorem identity_filedLines (filed : List Filed) (file : Filed) :
    identity (filedLines filed file) = shown file.translation := by
  have hcontext := identity_contextLines file.translation.key.context
  have htext := identity_textLines (messageId file.translation)
  rw [identity, Prod.mk.injEq] at hcontext htext
  rw [identity, filedLines]
  simp only [fieldText?_append, fieldText?_noteLines, hcontext, htext, Option.none_or,
    Option.or_none, shown]

/-! ## Identities of one domain -/

section Keys

variable {reserved : List String} {filed owners : List Filed} {β : Type}

/-- Two entries that have the same in common share a key. -/
def TellsKey (f : Filed → β) (first second : Filed) : Prop :=
  f first = f second → first.key = second.key

instance (f : Filed → β) : Std.Symm (TellsKey f) where
  symm _ _ htells heq := (htells heq.symm).symm

instance (f : Filed → β) : Std.Refl (TellsKey f) where
  refl _ _ := rfl

/-- What all entries of a key have in common is different for different keys exactly when it tells
the keys of all entries. -/
theorem nodup_map_iff (howners : OwnKeys filed owners) {f : Filed → β}
    (hsame : ∀ file ∈ filed, ∀ other ∈ filed, file.key = other.key → f file = f other) :
    (owners.map f).Nodup ↔ filed.Pairwise (TellsKey f) := by
  constructor
  · intro hnodup
    apply List.pairwise_of_reflexive_of_forall_ne
    intro file hfile other hother _ heq
    obtain ⟨first, hfirst, hkey⟩ := List.mem_map.mp (howners.covers file hfile)
    obtain ⟨second, hsecond, hkey'⟩ := List.mem_map.mp (howners.covers other hother)
    have hboth : f first = f second := by
      calc
        f first = f file := hsame first (howners.mem first hfirst) file hfile hkey
        _ = f other := heq
        _ = f second := (hsame second (howners.mem second hsecond) other hother hkey').symm
    rw [← hkey, ← hkey', List.inj_on_of_nodup_map hnodup hfirst hsecond hboth]
  · intro hkeys
    have hall := hkeys.forall_of_forall fun file _ => Std.Refl.refl file
    refine List.Nodup.map_on ?_ (List.Nodup.of_map _ howners.nodup)
    intro first hfirst second hsecond heq
    exact List.inj_on_of_nodup_map howners.nodup hfirst hsecond
      (hall (howners.mem first hfirst) (howners.mem second hsecond) heq)

/-- Two entries of a domain share a key when they clash, and only then. -/
theorem pairwise_tellsKey_iff (hfit : KeysFit reserved filed) (f : Translation → β) :
    filed.Pairwise (TellsKey fun file => f file.translation) ↔
      (filed.map Filed.translation).Pairwise fun first second =>
        f first = f second → Clash first second := by
  rw [List.pairwise_map]
  constructor
  · intro hkeys
    refine (hfit.apart.and hkeys).imp_of_mem ?_
    rintro first second hfirst hsecond ⟨hplain, htells⟩ heq
    obtain ⟨hone, htwo⟩ := hplain (htells heq)
    exact ⟨hone, htwo, messageId_eq_iff.mp (hfit.messageId_eq hfirst hsecond (htells heq))⟩
  · intro hclash
    refine hclash.imp_of_mem ?_
    intro first second hfirst hsecond hclash heq
    obtain ⟨hone, htwo, halike⟩ := hclash heq
    rw [hfit.plain first hfirst hone, hfit.plain second hsecond htwo, messageId_eq_iff.mpr halike]

/-- Entries of one key are written with one identity. -/
theorem shown_eq_of_key_eq (hfit : KeysFit reserved filed) {file other : Filed}
    (hfile : file ∈ filed) (hother : other ∈ filed) (hkey : file.key = other.key) :
    shown file.translation = shown other.translation := by
  have hid := hfit.messageId_eq hfile hother hkey
  rcases hfit.eq_or_plain hfile hother hkey with rfl | ⟨hone, htwo⟩
  · rfl
  · rw [shown, shown, hone, htwo, hid]

end Keys

/-! ## Entries that keep their texts -/

/-- A separable entry is written with its own text. -/
theorem shown_eq_of_separable {translation : Translation} (hseparable : Separable translation) :
    shown translation = (translation.key.context, some translation.key.original) := by
  have htext : shownText (messageId translation) = translation.key.original := by
    cases hplural : translation.details.plural with
    | none =>
        rw [messageId_of_none hplural]
        exact shownText_of_not_two (hseparable.plain hplural)
    | some plural =>
        rw [messageId_of_some hplural]
        exact shownText_of_two (hseparable.plural plural hplural)
  rw [shown, htext]

/-- Separable entries are never written with one identity. -/
theorem pairwise_shown_ne {catalogue : Catalogue}
    (hseparable : ∀ translation ∈ catalogue.translations, Separable translation) :
    catalogue.translations.Pairwise fun first second => shown first ≠ shown second := by
  have hkeys := nodup_map_key catalogue
  rw [List.Nodup, List.pairwise_map] at hkeys
  refine hkeys.imp_of_mem ?_
  intro first second hfirst hsecond hne hshown
  rw [shown_eq_of_separable (hseparable first hfirst),
    shown_eq_of_separable (hseparable second hsecond), Prod.mk.injEq, Option.some.injEq] at hshown
  exact hne (congrArg₂ TranslationKey.mk hshown.1 hshown.2)

/-! ## Blocks of an import -/

theorem filedLines_ne_nil (filed : List Filed) (file : Filed) : filedLines filed file ≠ [] := by
  intro hnil
  have hidentity := identity_filedLines filed file
  rw [hnil] at hidentity
  exact Option.some_ne_none _ (congrArg Prod.snd hidentity).symm

/-- A block is read line by line when what its entries say does not leave a line. -/
theorem fits_of_mem_filedLines {filed : List Filed}
    (hlines : ∀ file ∈ filed, OnLines file.translation) {file : Filed} {line : Line}
    (hmem : line ∈ filedLines filed file) : line.Fits := by
  rcases mem_filedLines hmem with ⟨comment, hcomment, rfl⟩ | rfl | ⟨keyword, hkeyword, text, rfl⟩
  · obtain ⟨translation, htranslation, hnote⟩ := List.mem_flatMap.mp hcomment
    obtain ⟨other, hother, -, rfl⟩ := mem_sharing_iff.mp htranslation
    exact (hlines other hother).comments comment hnote
  · rw [sources_eq_map]
    apply newline_notMem_references
    intro reference hreference
    obtain ⟨translation, htranslation, hplace⟩ := List.mem_flatMap.mp hreference
    obtain ⟨other, hother, -, rfl⟩ := mem_sharing_iff.mp htranslation
    exact (hlines other hother).paths reference hplace
  · exact Line.fits_field hkeyword text

/-- The blocks of a template are told apart exactly when all entries that are written with one
identity share a key, and one of them is taken for the header exactly when an entry is written like
it.  While all entries are separable, all blocks are told apart, and only an empty text without a
context is taken for the header.  These are the blocks that are read back when notes and paths stay
on their lines. -/
theorem identities_importAll (locale : String) (catalogues : Catalogues) (domain : String) :
    ∃ written : List (List Line),
      format ((Store.empty locale).importAll catalogues).view domain =
        header locale ++ "\n".intercalate (written.map blockText) ∧
      blocks ((Store.empty locale).importAll catalogues).view domain = written.map blockText ∧
      ((written.map identity).Nodup ↔
        (catalogues.translationsIn domain).Pairwise fun first second =>
          shown first = shown second → Clash first second) ∧
      (headerIdentity ∈ written.map identity ↔
        ∃ translation ∈ catalogues.translationsIn domain, shown translation = headerIdentity) ∧
      ((∀ translation ∈ catalogues.translationsIn domain, Separable translation) →
        (written.map identity).Nodup ∧
        (headerIdentity ∈ written.map identity ↔
          ∃ translation ∈ catalogues.translationsIn domain, translation.key = ⟨none, ""⟩)) ∧
      ('\n' ∉ locale.toList → (∀ translation ∈ catalogues.translationsIn domain, OnLines translation) →
        readBlocks (format ((Store.empty locale).importAll catalogues).view domain) =
          some written) := by
  obtain ⟨filed, owners, htranslations, hfit, howners, hblocks, hformat⟩ :=
    exists_format_eq locale catalogues domain
  have hidentities : (owners.map (filedLines filed)).map identity =
      owners.map fun file => shown file.translation := by
    rw [List.map_map]
    exact List.map_congr_left fun file _ => identity_filedLines filed file
  have hnodup : ((owners.map (filedLines filed)).map identity).Nodup ↔
      (catalogues.translationsIn domain).Pairwise fun first second =>
        shown first = shown second → Clash first second := by
    rw [hidentities, ← htranslations, ← pairwise_tellsKey_iff hfit]
    apply nodup_map_iff howners
    exact fun file hfile other hother => shown_eq_of_key_eq hfit hfile hother
  have hheader : headerIdentity ∈ (owners.map (filedLines filed)).map identity ↔
      ∃ translation ∈ catalogues.translationsIn domain, shown translation = headerIdentity := by
    rw [hidentities, ← htranslations]
    constructor
    · intro hmem
      obtain ⟨file, hfile, hshown⟩ := List.mem_map.mp hmem
      exact ⟨file.translation, List.mem_map_of_mem (howners.mem file hfile), hshown⟩
    · rintro ⟨_, hmem, hshown⟩
      obtain ⟨file, hfile, rfl⟩ := List.mem_map.mp hmem
      obtain ⟨owner, howner, hkey⟩ := List.mem_map.mp (howners.covers file hfile)
      rw [← hshown, ← shown_eq_of_key_eq hfit (howners.mem owner howner) hfile hkey]
      exact List.mem_map_of_mem howner
  refine ⟨owners.map (filedLines filed), hformat, hblocks, hnodup, hheader, fun hseparable => ⟨?_, ?_⟩,
    ?_⟩
  · exact hnodup.mpr ((pairwise_shown_ne hseparable).imp fun hne heq => absurd heq hne)
  · rw [hheader]
    refine exists_congr fun translation => and_congr_right fun hmem => ?_
    rw [shown_eq_of_separable (hseparable translation hmem), headerIdentity, Prod.mk.injEq,
      Option.some.injEq]
    constructor
    · rintro ⟨hcontext, horiginal⟩
      exact congrArg₂ TranslationKey.mk hcontext horiginal
    · intro hkey
      exact ⟨congrArg TranslationKey.context hkey, congrArg TranslationKey.original hkey⟩
  · intro hlocale hlines
    rw [hformat]
    apply readBlocks_written hlocale
    intro block hblock
    obtain ⟨file, -, rfl⟩ := List.mem_map.mp hblock
    refine ⟨filedLines_ne_nil filed file, fun line => fits_of_mem_filedLines fun other hother => ?_⟩
    exact hlines other.translation (htranslations ▸ List.mem_map_of_mem hother)

/-- The messages of plain texts. -/
def plainMessages (texts : List String) : List Message :=
  texts.map fun text => ⟨text, 1, none, none, none, none⟩

/-- The blocks of a text with a pipe, and of what stands in front of the pipe. -/
def yesBlocks : List (List Line) :=
  [[.sources "a.twig:1", .field "msgid" "Yes", .field "msgid_plural" "No", .field "msgstr[0]" "",
      .field "msgstr[1]" ""],
    [.sources "a.twig:1", .field "msgid" "Yes", .field "msgstr" ""]]

/-- The block of an empty text. -/
def emptyBlocks : List (List Line) :=
  [[.sources "a.twig:1", .field "msgid" "", .field "msgstr" ""]]

/-- A text that splits into two rules and its first rule have one identity, and an empty text has
that of the header. -/
theorem identities_plainMessages :
    blocks ((Store.empty "en").importAll (.ofMessages "messages" "a.twig"
        (plainMessages ["Yes|No", "Yes"]))).view "messages" = yesBlocks.map blockText ∧
    yesBlocks.map identity = [(none, some "Yes"), (none, some "Yes")] ∧
    blocks ((Store.empty "en").importAll (.ofMessages "messages" "a.twig"
        (plainMessages [""]))).view "messages" = emptyBlocks.map blockText ∧
    emptyBlocks.map identity = [headerIdentity] := by
  refine ⟨?_, rfl, ?_, rfl⟩ <;> decide

end TemplateMessages.Catalogue.Pot

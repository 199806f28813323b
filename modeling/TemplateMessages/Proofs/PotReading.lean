import TemplateMessages.Proofs.ImportedEntries
import TemplateMessages.Proofs.StoredBlocks

/-!
# Reading back what has been collected

A catalogue that is imported into an empty store and written as a portable object
template can be read back: behind the header stands one block for every entry,
in order, with its comments, its sources, its context and its texts.  This needs
that the rules of an entry are its own texts, and that comments and paths stay
on their lines.
-/

namespace TemplateMessages

open TemplateMessages.Catalogue

namespace Catalogue.Pot

open TemplateMessages.Catalogue.Store

/-- The lines of the block of an entry. -/
def blockLines (translation : Translation) : List Line :=
  translation.details.comments.map .comment ++
    (if translation.details.references.toList.isEmpty then []
      else [.sources (" ".intercalate (translation.details.references.toList.map Reference.text))]) ++
    translation.key.context.toList.map (.field "msgctxt") ++
    .field "msgid" translation.key.original ::
      match translation.details.plural with
      | some plural => [.field "msgid_plural" plural, .field "msgstr[0]" "", .field "msgstr[1]" ""]
      | none => [.field "msgstr" ""]

/-- The rules of an entry are its texts: two with a plural, and not two without. -/
structure Separable (translation : Translation) : Prop where
  plain : translation.details.plural = none → ∀ rules,
    Plural.standardRules translation.key.original = .ok rules → rules.length ≠ 2
  plural : ∀ plural, translation.details.plural = some plural →
    Plural.standardRules (Plural.join translation.key.original plural) =
      .ok [translation.key.original, plural]

/-! ## Identifiers -/

/-- Separable entries of one identifier have one text. -/
theorem original_eq_of_messageId_eq {first second : Translation} (hfirst : Separable first)
    (hsecond : Separable second) (hid : messageId first = messageId second) :
    first.key.original = second.key.original := by
  cases hone : first.details.plural with
  | none =>
      rw [messageId_of_none hone] at hid
      cases htwo : second.details.plural with
      | none => rwa [messageId_of_none htwo] at hid
      | some plural =>
          have hrules := hsecond.plural plural htwo
          rw [← messageId_of_some htwo, ← hid] at hrules
          exact absurd rfl (hfirst.plain hone _ hrules)
  | some plural =>
      have hrules := hfirst.plural plural hone
      rw [← messageId_of_some hone, hid] at hrules
      cases htwo : second.details.plural with
      | none =>
          rw [messageId_of_none htwo] at hrules
          exact absurd rfl (hsecond.plain htwo _ hrules)
      | some other =>
          rw [messageId_of_some htwo, hsecond.plural other htwo] at hrules
          exact (List.cons.inj (Except.ok.inj hrules)).1.symm

theorem nodup_map_key (catalogue : Catalogue) :
    (catalogue.translations.map Translation.key).Nodup := by
  rw [Catalogue.translations, List.map_map]
  exact catalogue.nodup

/-- Without a context, separable entries have different identifiers. -/
theorem nodup_plainIds {catalogue : Catalogue}
    (hseparable : ∀ translation ∈ catalogue.translations, Separable translation) :
    (plainIds catalogue).Nodup := by
  have hkeys := nodup_map_key catalogue
  refine List.Nodup.map_on ?_ ((List.Nodup.of_map _ hkeys).filter _)
  intro first hfirst second hsecond hid
  obtain ⟨hone, hfirstContext⟩ := List.mem_filter.mp hfirst
  obtain ⟨htwo, hsecondContext⟩ := List.mem_filter.mp hsecond
  have horiginal := original_eq_of_messageId_eq (hseparable _ hone) (hseparable _ htwo) hid
  have hcontext : first.key.context = second.key.context := by
    rw [Option.isNone_iff_eq_none.mp hfirstContext, Option.isNone_iff_eq_none.mp hsecondContext]
  exact List.inj_on_of_nodup_map hkeys hone htwo (congrArg₂ TranslationKey.mk hcontext horiginal)

/-! ## Blocks -/

/-- A separable entry is written as its lines. -/
theorem block_eq_blockText {translation : Translation} (hseparable : Separable translation)
    {key : String} (hkey : dropContext (some (recorded .empty translation)) key =
      messageId translation) :
    block (some (recorded .empty translation)) key (messageId translation) =
      blockText (blockLines translation) := by
  have hfields : messageFields (messageId translation) (messageId translation) =
      blockText (.field "msgid" translation.key.original ::
        match translation.details.plural with
        | some plural => [.field "msgid_plural" plural, .field "msgstr[0]" "", .field "msgstr[1]" ""]
        | none => [.field "msgstr" ""]) := by
    cases hplural : translation.details.plural with
    | some plural =>
        have hrules := hseparable.plural plural hplural
        rw [← messageId_of_some hplural] at hrules
        exact messageFields_of_two hrules
    | none =>
        rw [messageId_of_none hplural]
        exact messageFields_of_not_two _ (hseparable.plain hplural)
  have hannotations := annotations_eq_blockText translation.details.comments
    (translation.details.references.toList.map Reference.text) translation.key.context
  rw [List.isEmpty_map] at hannotations
  have hcontext := contextField_eq_blockText translation.key.context
  rw [block, hkey, hfields, blockLines, blockText_append, blockText_append, ← hannotations, ← hcontext]
  rfl

/-! ## Reading back -/

theorem newline_notMem_reference {reference : Reference} (hpath : '\n' ∉ reference.path.toList) :
    '\n' ∉ reference.text.toList := by
  have hnumber : '\n' ∉ Nat.toDigits 10 reference.line := fun hmem =>
    absurd (Nat.isDigit_of_mem_toDigits (by decide) (by decide) hmem) (by decide)
  simp [Reference.text, hpath, hnumber]

/-- What an entry notes and where it stands does not leave a line. -/
structure OnLines (translation : Translation) : Prop where
  comments : ∀ comment ∈ translation.details.comments, '\n' ∉ comment.toList
  paths : ∀ reference ∈ translation.details.references.toList, '\n' ∉ reference.path.toList

theorem newline_notMem_references {references : List Reference}
    (hpaths : ∀ reference ∈ references, '\n' ∉ reference.path.toList) :
    '\n' ∉ (" ".intercalate (references.map Reference.text)).toList := by
  rw [String.toList_intercalate]
  intro hmem
  rcases mem_or_of_mem_intercalate hmem with hspace | ⟨text, htext, hnewline⟩
  · exact absurd hspace (by decide)
  · rw [List.map_map] at htext
    obtain ⟨reference, hreference, rfl⟩ := List.mem_map.mp htext
    exact newline_notMem_reference (hpaths reference hreference) hnewline

theorem blockLines_ne_nil (translation : Translation) : blockLines translation ≠ [] := by
  simp [blockLines]

theorem fits_of_mem_blockLines {translation : Translation} (hlines : OnLines translation)
    {line : Line} (hmem : line ∈ blockLines translation) : line.Fits := by
  rw [blockLines, List.mem_append, List.mem_append, List.mem_append] at hmem
  rcases hmem with ((hcomment | hsource) | hcontext) | hmem
  · obtain ⟨comment, hnote, rfl⟩ := List.mem_map.mp hcomment
    exact hlines.comments comment hnote
  · split at hsource
    · exact absurd hsource List.not_mem_nil
    · rw [List.mem_singleton.mp hsource]
      exact newline_notMem_references hlines.paths
  · obtain ⟨context, -, rfl⟩ := List.mem_map.mp hcontext
    exact Line.fits_field (by decide) context
  · rcases List.mem_cons.mp hmem with rfl | hmem
    · exact Line.fits_field (by decide) translation.key.original
    · cases hplural : translation.details.plural with
      | some plural =>
          simp only [hplural, List.mem_cons, List.not_mem_nil, or_false] at hmem
          rcases hmem with rfl | rfl | rfl
          · exact Line.fits_field (by decide) plural
          · exact Line.fits_field (by decide) ""
          · exact Line.fits_field (by decide) ""
      | none =>
          simp only [hplural, List.mem_singleton] at hmem
          rw [hmem]
          exact Line.fits_field (by decide) ""

theorem map_eq_map_of_forall₂ {α β γ : Type} {related : α → β → Prop} {f : α → γ} {g : β → γ}
    {first : List α} {second : List β} (h : List.Forall₂ related first second)
    (heq : ∀ a, ∀ b ∈ second, related a b → f a = g b) : first.map f = second.map g := by
  induction h with
  | nil => rfl
  | cons hab _ ih =>
      rw [List.map_cons, List.map_cons, heq _ _ List.mem_cons_self hab,
        ih fun a b hb => heq a b (List.mem_cons_of_mem _ hb)]

/-- Reading what has been written of a catalogue: taking the contexts off its keys never fails,
and behind the header stands the block of every entry of the domain, in order, with all that the
entry says. -/
theorem readBlocks_format_importAll {locale : String} (hlocale : '\n' ∉ locale.toList)
    {catalogues : Catalogues} {domain : String}
    (hseparable : ∀ translation ∈ catalogues.translationsIn domain, Separable translation)
    (hlines : ∀ translation ∈ catalogues.translationsIn domain, OnLines translation) :
    (∀ key, ((Store.empty locale).importAll catalogues).view.decontextualise key domain =
      .ok (dropContext (((Store.empty locale).importAll catalogues).view.metadata? key domain) key)) ∧
    readBlocks (format ((Store.empty locale).importAll catalogues).view domain) =
      some ((catalogues.translationsIn domain).map blockLines) := by
  constructor
  · intro key
    rfl
  have hholds := holds_importAll locale catalogues (nodup_plainIds hseparable)
  have hblocks : (((Store.empty locale).importAll catalogues).all domain).map (fun message =>
        block (((Store.empty locale).importAll catalogues).metadata? message.1 domain) message.1
          message.2) =
      (catalogues.translationsIn domain).map fun translation =>
        blockText (blockLines translation) := by
    apply map_eq_map_of_forall₂ hholds.messages
    intro message translation hmem hstands
    have hkey := hstands.dropContext_eq
    rw [hstands.metadata] at hkey
    rw [hstands.target, hstands.metadata]
    exact block_eq_blockText (hseparable translation hmem) hkey
  have hformat : format ((Store.empty locale).importAll catalogues).view domain =
      header locale ++ "\n".intercalate
        (((catalogues.translationsIn domain).map blockLines).map blockText) := by
    calc
      format ((Store.empty locale).importAll catalogues).view domain =
          header ((Store.empty locale).importAll catalogues).locale ++
            "\n".intercalate ((((Store.empty locale).importAll catalogues).all domain).map
              fun message => block (((Store.empty locale).importAll catalogues).metadata? message.1
                domain) message.1 message.2) := rfl
      _ = _ := by
        rw [hblocks, locale_importAll, List.map_map]
        rfl
  rw [hformat]
  apply readBlocks_written hlocale
  intro block hblock
  obtain ⟨translation, hmem, rfl⟩ := List.mem_map.mp hblock
  exact ⟨blockLines_ne_nil translation, fun line => fits_of_mem_blockLines (hlines _ hmem)⟩

/-- A text that looks like a key, before an entry with an empty context and a plural. -/
def menu : Catalogues :=
  (Catalogues.add .empty "menu" ⟨⟨none, "HAS_CONTEXT0::Open||Close"⟩, .empty⟩).add "menu"
    ⟨⟨some "", "a|b"⟩, ⟨some "\"c\"\nd", ["short"], .ofList [⟨"a.twig", 1⟩, ⟨"b.twig", 12⟩]⟩⟩

theorem readBlocks_format_menu :
    '\n' ∉ "en".toList ∧
    (∀ translation ∈ menu.translationsIn "menu", Separable translation) ∧
    (∀ translation ∈ menu.translationsIn "menu", OnLines translation) ∧
    readBlocks (format ((Store.empty "en").importAll menu).view "menu") =
      some [[.field "msgid" "HAS_CONTEXT0::Open||Close", .field "msgstr" ""],
        [.comment "short", .sources "a.twig:1 b.twig:12", .field "msgctxt" "", .field "msgid" "a|b",
          .field "msgid_plural" "\"c\"\nd", .field "msgstr[0]" "", .field "msgstr[1]" ""]] := by
  have hentries : menu.translationsIn "menu" =
      [⟨⟨none, "HAS_CONTEXT0::Open||Close"⟩, .empty⟩,
        ⟨⟨some "", "a|b"⟩,
          ⟨some "\"c\"\nd", ["short"], .ofList [⟨"a.twig", 1⟩, ⟨"b.twig", 12⟩]⟩⟩] := rfl
  have hlocale : '\n' ∉ "en".toList := by decide
  have hseparable : ∀ translation ∈ menu.translationsIn "menu", Separable translation := by
    have hone : Plural.standardRules "HAS_CONTEXT0::Open||Close" = .ok ["HAS_CONTEXT0::Open|Close"] := by
      decide
    have htwo : Plural.standardRules (Plural.join "a|b" "\"c\"\nd") = .ok ["a|b", "\"c\"\nd"] := by
      decide
    rw [hentries, List.forall_mem_cons, List.forall_mem_singleton]
    constructor
    · refine ⟨fun _ rules hrules => ?_, nofun⟩
      obtain rfl := Except.ok.inj (hone.symm.trans hrules)
      decide
    · refine ⟨nofun, fun plural hplural => ?_⟩
      obtain rfl := Option.some.inj hplural
      exact htwo
  have hlines : ∀ translation ∈ menu.translationsIn "menu", OnLines translation := by
    rw [hentries, List.forall_mem_cons, List.forall_mem_singleton]
    exact ⟨⟨nofun, nofun⟩, ⟨by decide, by decide⟩⟩
  refine ⟨hlocale, hseparable, hlines, ?_⟩
  rw [(readBlocks_format_importAll hlocale hseparable hlines).2, hentries]
  decide

end Catalogue.Pot

end TemplateMessages

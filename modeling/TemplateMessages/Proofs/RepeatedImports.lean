import Mathlib.Data.List.Induction
import TemplateMessages.Proofs.StoredKeys

/-!
# Imports one after the other

A store may take one import after the other.  It still holds what has been filed
in it, and under every key the entry that was filed last decides.  A key that is
searched for an entry with a context is free at that moment, and no entry of the
same import takes it.  So the key is lost to a later import alone, and only when
an entry without a context has an identifier that looks like it.
-/

namespace TemplateMessages.Catalogue.Store

/-- A store after imports, in order. -/
def importEach (store : Store) (imports : List Catalogues) : Store :=
  imports.foldl importAll store

/-- The context that the metadata of a key records. -/
def contextAt (store : Store) (key domain : String) : Option String :=
  (store.metadata? key domain).bind Metadata.context

/-- An identifier is stored under some key together with a context. -/
def Recorded (store : Store) (domain context id : String) : Prop :=
  ∃ key, Assoc.get? key (store.all domain) = some id ∧
    store.contextAt key domain = some context

/-- An entry is found under the key that it has been given. -/
structure FoundAt (store : Store) (domain : String) (file : Filed) : Prop where
  target : Assoc.get? file.key (store.all domain) = some (messageId file.translation)
  context : store.contextAt file.key domain = file.translation.key.context

/-! ## The last entry of a key -/

/-- No entry behind this one has its key. -/
def IsLast (filed : List Filed) (file : Filed) : Prop :=
  ∃ before after, filed = before ++ file :: after ∧ ∀ other ∈ after, other.key ≠ file.key

theorem exists_isLast {filed : List Filed} {key : String} (hkey : key ∈ filed.map Filed.key) :
    ∃ file, IsLast filed file ∧ file.key = key := by
  induction filed with
  | nil => exact absurd hkey List.not_mem_nil
  | cons first rest ih =>
      by_cases hlater : key ∈ rest.map Filed.key
      case pos =>
        obtain ⟨file, ⟨before, after, hrest, hafter⟩, hfile⟩ := ih hlater
        exact ⟨file, ⟨first :: before, after, congrArg (List.cons first) hrest, hafter⟩, hfile⟩
      case neg =>
        have hfirst : first.key = key := ((List.mem_cons.mp hkey).resolve_right hlater).symm
        refine ⟨first, ⟨[], rest, rfl, fun other hother hsame => hlater ?_⟩, hfirst⟩
        rw [← hfirst, ← hsame]
        exact List.mem_map_of_mem hother

section Last

variable {store : Store} {domain : String} {filed : List Filed}

/-- What a key says is what the last entry of the key says. -/
theorem Keeps.foundAt_of_isLast (hkeeps : Keeps store domain filed) {file : Filed}
    (hlast : IsLast filed file) : FoundAt store domain file := by
  obtain ⟨before, after, rfl, hafter⟩ := hlast
  constructor
  · rw [hkeeps.messages, Assoc.ofPairs, Assoc.putAll, List.map_append, List.map_cons,
      List.foldl_append, List.foldl_cons]
    apply Assoc.get?_putAll
    · intro entry hentry hsame
      obtain ⟨other, hother, rfl⟩ := List.mem_map.mp hentry
      exact absurd hsame (hafter other hother)
    · exact .inr (Assoc.get?_put_self file.key _ _)
  · rw [contextAt, hkeeps.metadata, sharing_append_cons hafter, noted_concat]
    rfl

end Last

/-! ## Keys over many imports -/

/-- The entries of imports with their keys, import by import: the keys of one import fit each
other, and those of its entries with a context are new. -/
structure FiledInTurn (imports : List (List Filed)) : Prop where
  fits : ∀ filed ∈ imports, KeysFit (idsWithoutContext (filed.map Filed.translation)) filed
  new : imports.Pairwise NewKeys

theorem exists_filed_importEach (locale : String) (imports : List Catalogues) (domain : String) :
    ∃ filed : List (List Filed),
      filed.map (·.map Filed.translation) = imports.map (·.translationsIn domain) ∧
      FiledInTurn filed ∧ Keeps ((Store.empty locale).importEach imports) domain filed.flatten := by
  induction imports using List.reverseRecOn with
  | nil => exact ⟨[], rfl, ⟨by simp, .nil⟩, keeps_empty locale domain⟩
  | append_singleton earlier catalogues ih =>
      obtain ⟨filed, htranslations, hturn, hkeeps⟩ := ih
      obtain ⟨files, hfiles, hfit, hnew, hkeeps'⟩ := exists_filed_importAll_onto hkeeps catalogues
      refine ⟨filed ++ [files], ?_, ⟨?_, ?_⟩, ?_⟩
      · rw [List.map_append, List.map_append, htranslations, List.map_singleton, List.map_singleton,
          hfiles]
      · intro others hothers
        rcases List.mem_append.mp hothers with hothers | hothers
        · exact hturn.fits others hothers
        · rw [List.mem_singleton.mp hothers, hfiles]
          exact hfit
      · refine List.pairwise_append.mpr ⟨hturn.new, List.pairwise_singleton _ _, ?_⟩
        intro present hpresent others hothers file hfile hsome other hother
        rw [List.mem_singleton.mp hothers] at hfile
        exact hnew file hfile hsome other (List.mem_flatten_of_mem hpresent hother)
      · rw [List.flatten_concat, importEach, List.foldl_concat]
        exact hkeeps'

namespace FiledInTurn

variable {imports : List (List Filed)}

theorem plain (hturn : FiledInTurn imports) {file : Filed} (hfile : file ∈ imports.flatten)
    (hcontext : file.translation.key.context = none) : file.key = messageId file.translation := by
  obtain ⟨filed, hfiled, hmem⟩ := List.mem_flatten.mp hfile
  exact (hturn.fits filed hfiled).plain file hmem hcontext

theorem marked (hturn : FiledInTurn imports) {file : Filed} (hfile : file ∈ imports.flatten)
    (hsome : file.translation.key.context.isSome) :
    ∃ number, file.key = contextKey number (messageId file.translation) := by
  obtain ⟨filed, hfiled, hmem⟩ := List.mem_flatten.mp hfile
  exact ((hturn.fits filed hfiled).marked file hmem hsome).2

/-- Whatever has been filed before, an entry with a context takes none of its keys. -/
theorem pairwise_flatten (hturn : FiledInTurn imports) :
    imports.flatten.Pairwise fun earlier later =>
      later.translation.key.context.isSome → earlier.key ≠ later.key := by
  rw [List.pairwise_flatten]
  constructor
  · intro filed hfiled
    apply (hturn.fits filed hfiled).apart.imp
    intro earlier later hsame hsome hkey
    rw [(hsame hkey).2] at hsome
    exact Bool.false_ne_true hsome
  · apply hturn.new.imp
    intro present filed hnew earlier hearlier later hlater hsome
    exact hnew later hlater hsome earlier hearlier

/-- The last entry of a key that an entry without a context has been given has no context. -/
theorem context_of_isLast (hturn : FiledInTurn imports) {file last : Filed}
    (hfile : file ∈ imports.flatten) (hcontext : file.translation.key.context = none)
    (hlast : IsLast imports.flatten last) (hkey : last.key = file.key) :
    last.translation.key.context = none := by
  obtain ⟨before, after, hsplit, hafter⟩ := hlast
  have hfresh := hturn.pairwise_flatten
  rw [hsplit] at hfile hfresh
  rcases List.mem_append.mp hfile with hbefore | hbehind
  · by_contra hsome
    exact (List.pairwise_append.mp hfresh).2.2 file hbefore last List.mem_cons_self
      (Option.isSome_iff_ne_none.mpr hsome) hkey.symm
  · rcases List.mem_cons.mp hbehind with rfl | hbehind
    · exact hcontext
    · exact absurd hkey.symm (hafter file hbehind)

/-- While no later import has an identifier that looks like its key, an entry with a context is the
last of its key. -/
theorem isLast_of_notMem {earlier later : List (List Filed)} {filed : List Filed}
    (hturn : FiledInTurn (earlier ++ filed :: later)) {file : Filed} (hfile : file ∈ filed)
    (hsome : file.translation.key.context.isSome)
    (hids : file.key ∉ idsWithoutContext (later.flatten.map Filed.translation)) :
    IsLast (earlier ++ filed :: later).flatten file := by
  obtain ⟨front, back, rfl⟩ := List.mem_iff_append.mp hfile
  refine ⟨earlier.flatten ++ front, back ++ later.flatten, by simp, ?_⟩
  intro other hother hkey
  rcases List.mem_append.mp hother with hback | hlater
  · have hfit := hturn.fits (front ++ file :: back) (List.mem_append_right _ List.mem_cons_self)
    have hapart := List.pairwise_cons.mp (List.pairwise_append.mp hfit.apart).2.1
    rw [(hapart.1 other hback hkey.symm).1] at hsome
    exact Bool.false_ne_true hsome
  · cases hcontext : other.translation.key.context with
    | none =>
        have hmem : other ∈ (earlier ++ (front ++ file :: back) :: later).flatten := by
          simp [hlater]
        rw [← hkey, hturn.plain hmem hcontext] at hids
        exact hids (mem_idsWithoutContext (List.mem_map_of_mem hlater) hcontext)
    | some context =>
        obtain ⟨others, hothers, hmem⟩ := List.mem_flatten.mp hlater
        have hnew := List.pairwise_cons.mp (List.pairwise_append.mp hturn.new).2.1
        have hsomeOther : other.translation.key.context.isSome := by
          rw [hcontext, Option.isSome_some]
        exact hnew.1 others hothers other hmem hsomeOther file hfile hkey.symm

end FiledInTurn

/-! ## What is left of a context -/

section Left

variable {store : Store} {domain : String} {imports : List (List Filed)}

/-- The key of an entry without a context records none. -/
theorem Keeps.contextAt_of_plain (hkeeps : Keeps store domain imports.flatten)
    (hturn : FiledInTurn imports) {file : Filed} (hfile : file ∈ imports.flatten)
    (hcontext : file.translation.key.context = none) : store.contextAt file.key domain = none := by
  obtain ⟨last, hlast, hkey⟩ := exists_isLast (List.mem_map_of_mem hfile)
  rw [← hkey, (hkeeps.foundAt_of_isLast hlast).context]
  exact hturn.context_of_isLast hfile hcontext hlast hkey

theorem Keeps.foundAt_iff {earlier later : List (List Filed)} {filed : List Filed}
    (hkeeps : Keeps store domain (earlier ++ filed :: later).flatten)
    (hturn : FiledInTurn (earlier ++ filed :: later)) {file : Filed} (hfile : file ∈ filed)
    (hsome : file.translation.key.context.isSome) :
    FoundAt store domain file ↔
      file.key ∉ idsWithoutContext (later.flatten.map Filed.translation) := by
  constructor
  · intro hfound hid
    obtain ⟨translation, hmem, hkey⟩ := List.mem_map.mp hid
    obtain ⟨hmem, hnone⟩ := List.mem_filter.mp hmem
    obtain ⟨other, hother, rfl⟩ := List.mem_map.mp hmem
    have hcontext := Option.isNone_iff_eq_none.mp hnone
    have hmem' : other ∈ (earlier ++ filed :: later).flatten := by
      simp [hother]
    have hlost := hkeeps.contextAt_of_plain hturn hmem' hcontext
    rw [hturn.plain hmem' hcontext, hkey, hfound.context] at hlost
    rw [hlost] at hsome
    exact Bool.false_ne_true hsome
  · intro hids
    exact hkeeps.foundAt_of_isLast (hturn.isLast_of_notMem hfile hsome hids)

/-- A context that is recorded belongs to an entry that is found. -/
theorem Keeps.recorded_iff (hkeeps : Keeps store domain imports.flatten) (context id : String) :
    Recorded store domain context id ↔ ∃ file ∈ imports.flatten,
      file.translation.key.context = some context ∧ messageId file.translation = id ∧
        FoundAt store domain file := by
  constructor
  · rintro ⟨key, htarget, hcontext⟩
    have hpresent : key ∈ store.keys domain := by
      rw [keys, ← Assoc.has_iff_mem_keys, Assoc.has, htarget, Option.isSome_some]
    obtain ⟨file, hlast, rfl⟩ := exists_isLast (hkeeps.mem_keys.mp hpresent)
    have hfound := hkeeps.foundAt_of_isLast hlast
    obtain ⟨before, after, hsplit, -⟩ := hlast
    refine ⟨file, ?_, ?_, ?_, hfound⟩
    · rw [hsplit]
      exact List.mem_append_right _ List.mem_cons_self
    · rw [← hfound.context, hcontext]
    · rw [hfound.target] at htarget
      exact Option.some.inj htarget
  · rintro ⟨file, -, hcontext, rfl, hfound⟩
    exact ⟨file.key, hfound.target, hfound.context.trans hcontext⟩

end Left

/-- After imports, no entry without a context has a key that records one.  An entry with a context
is found under the key that its import gave it exactly when no later import has an entry without a
context whose identifier is this key, and no other contexts are recorded. -/
theorem recorded_importEach (locale : String) (imports : List Catalogues) (domain : String) :
    (∀ translation ∈ imports.flatMap (·.translationsIn domain), translation.key.context = none →
      ((Store.empty locale).importEach imports).contextAt (messageId translation) domain = none) ∧
    ∃ filed : List (List Filed),
      filed.map (·.map Filed.translation) = imports.map (·.translationsIn domain) ∧
      (∀ earlier files later, filed = earlier ++ files :: later →
        ∀ file ∈ files, file.translation.key.context.isSome →
          (∃ number, file.key = contextKey number (messageId file.translation)) ∧
          (FoundAt ((Store.empty locale).importEach imports) domain file ↔
            file.key ∉ idsWithoutContext (later.flatten.map Filed.translation))) ∧
      ∀ context id, Recorded ((Store.empty locale).importEach imports) domain context id ↔
        ∃ file ∈ filed.flatten, file.translation.key.context = some context ∧
          messageId file.translation = id ∧
          FoundAt ((Store.empty locale).importEach imports) domain file := by
  obtain ⟨filed, htranslations, hturn, hkeeps⟩ := exists_filed_importEach locale imports domain
  refine ⟨?_, filed, htranslations, ?_, hkeeps.recorded_iff⟩
  · intro translation hmem hcontext
    rw [List.flatMap_def, ← htranslations, ← List.map_flatten] at hmem
    obtain ⟨file, hfile, rfl⟩ := List.mem_map.mp hmem
    rw [← hturn.plain hfile hcontext]
    exact hkeeps.contextAt_of_plain hturn hfile hcontext
  · rintro earlier files later rfl file hfile hsome
    refine ⟨hturn.marked ?_ hsome, hkeeps.foundAt_iff hturn hfile hsome⟩
    simp [hfile]

/-- A text in a context, and in a later import a text that looks like its key. -/
def openThenLookalike : List Catalogues :=
  [Catalogues.add .empty "messages" ⟨⟨some "menu", "Open"⟩, .empty⟩,
    Catalogues.add .empty "messages" ⟨⟨none, "HAS_CONTEXT0::Open"⟩, .empty⟩]

/-- The later text takes the key, and the context is recorded nowhere. -/
theorem not_recorded_openThenLookalike :
    (openThenLookalike.flatMap (·.translationsIn "messages")).map
        (fun translation => (translation.key.context, messageId translation)) =
      [(some "menu", "Open"), (none, "HAS_CONTEXT0::Open")] ∧
    ¬ Recorded ((Store.empty "en").importEach openThenLookalike) "messages" "menu" "Open" := by
  have hall : ((Store.empty "en").importEach openThenLookalike).all "messages" =
      [("HAS_CONTEXT0::Open", "HAS_CONTEXT0::Open")] := by
    decide
  refine ⟨by decide, ?_⟩
  rintro ⟨key, htarget, -⟩
  rw [hall] at htarget
  have htext : "Open" = "HAS_CONTEXT0::Open" :=
    congrArg Prod.snd (List.mem_singleton.mp (Assoc.mem_of_get? htarget))
  exact absurd htext (by decide)

end TemplateMessages.Catalogue.Store

import TemplateMessages.Command.Run
import TemplateMessages.Proofs.Merging
import TemplateMessages.Proofs.PathComponents

/-!
# Paths of dumped templates

A dump writes one template for every domain that has messages, at the path that
the name of the domain gives when it is seen from the output directory.  The name
is not restricted: a domain without a slash is a name in the directory, and one
with slashes may lead elsewhere, or to the path of another domain.
-/

namespace TemplateMessages

open TemplateMessages.Catalogue

/-! ## The domains of a store -/

namespace Catalogue.Store

theorem mem_domains_set (store : Store) (key target domain name : String) :
    name ∈ (store.set key target domain).messages.domains ↔
      name = domain ∨ name ∈ store.messages.domains :=
  store.messages.mem_domains_alter domain name _

theorem mem_domains_importCatalogue (store : Store) (domain : String) (catalogue : Catalogue)
    (name : String) :
    name ∈ (store.importCatalogue domain catalogue).messages.domains ↔
      name ∈ store.messages.domains ∨ name = domain ∧ catalogue.translations ≠ [] := by
  have hfold : ∀ reserved translations, ∀ store : Store,
      name ∈ (translations.foldl (importTranslation reserved domain) store).messages.domains ↔
        name ∈ store.messages.domains ∨ name = domain ∧ translations ≠ [] := by
    intro reserved translations
    induction translations with
    | nil => simp
    | cons translation rest ih =>
        intro store
        have hstep : name ∈ (importTranslation reserved domain store translation).messages.domains ↔
            name = domain ∨ name ∈ store.messages.domains :=
          mem_domains_set store _ _ domain name
        rw [List.foldl_cons, ih, hstep]
        tauto
  exact hfold _ _ store

/-- A store has the domains that an import brings messages for. -/
theorem mem_domains_importAll (store : Store) (catalogues : Catalogues) (name : String) :
    name ∈ (store.importAll catalogues).messages.domains ↔
      name ∈ store.messages.domains ∨ catalogues.translationsIn name ≠ [] := by
  have hfold : ∀ entries : List (String × Catalogue), (Assoc.keys entries).Nodup →
      ∀ store : Store,
        name ∈ (entries.foldl (fun store entry => store.importCatalogue entry.1 entry.2)
            store).messages.domains ↔
          name ∈ store.messages.domains ∨
            Catalogue.translations ((Assoc.get? name entries).getD .empty) ≠ [] := by
    intro entries hnodup
    induction entries with
    | nil =>
        intro store
        simp [Assoc.get?, Catalogue.translations, OrderedMap.empty]
    | cons entry rest ih =>
        intro store
        obtain ⟨hnew, hrest⟩ := List.nodup_cons.mp hnodup
        rw [List.foldl_cons, ih hrest, mem_domains_importCatalogue]
        by_cases hname : entry.1 = name
        · have hnone : Assoc.get? name rest = none :=
            Assoc.get?_eq_none_iff.mpr (hname ▸ hnew)
          have hempty : Catalogue.translations .empty = [] := rfl
          rw [Assoc.get?, if_pos hname, hnone, Option.getD_some, Option.getD_none]
          simp [hname, hempty]
        · rw [Assoc.get?, if_neg hname]
          simp [Ne.symm hname]
  exact hfold catalogues.entries catalogues.nodup_domains store

end Catalogue.Store

/-! ## The path of a domain -/

namespace Command

open TemplateMessages.Path

theorem isAbsolute_file (domain : String) :
    isAbsolute (domain ++ "." ++ potExtension) = isAbsolute domain := by
  cases hdomain : domain.toList with
  | nil => simp [isAbsolute, hdomain]
  | cons c rest => simp [isAbsolute, hdomain]

/-- A path is that of a base with one name behind it. -/
def OneBelow (base path : String) : Prop :=
  ∃ name, components path = components base ++ [.normal name]

/-- The name of a domain leads to a name in a directory.  From the root it must lead to this very
directory first; otherwise nothing but void texts may stand in front of its last slash, and not `.`
where no directory stands in front of it. -/
def StaysIn (directory domain : String) : Prop :=
  if isAbsolute domain then components directory = .root :: ahead domain
  else ahead domain = [] ∧ (directory = "" → ¬ ['.', '/'] <+: domain.toList)

theorem names_file (domain : String) :
    names (domain ++ "." ++ potExtension).toList =
      ahead domain ++ [.normal (baseName domain ++ "." ++ potExtension)] :=
  names_extension domain (by decide) (by decide)

/-- The path of a domain that starts at the root. -/
theorem components_potPath_of_isAbsolute {domain : String} (hdomain : isAbsolute domain = true)
    (directory : String) :
    components (potPath directory domain) =
      .root :: ahead domain ++ [.normal (baseName domain ++ "." ++ potExtension)] := by
  have hfile := (isAbsolute_file domain).trans hdomain
  rw [potPath, join, if_pos hfile, components_of_isAbsolute hfile, names_file]
  rfl

/-- The path of any other domain, seen from a directory. -/
theorem components_potPath_of_ne {directory domain : String} (hdirectory : directory ≠ "")
    (hdomain : isAbsolute domain = false) :
    components (potPath directory domain) = components directory ++ ahead domain ++
      [.normal (baseName domain ++ "." ++ potExtension)] := by
  rw [potPath, components_join hdirectory ((isAbsolute_file domain).trans hdomain), names_file,
    List.append_assoc]

theorem start?_file {domain : String} (hdomain : isAbsolute domain = false) :
    start? (domain ++ "." ++ potExtension).toList =
      if ['.', '/'] <+: domain.toList then some .current else none := by
  cases hchars : domain.toList with
  | nil => simp [hchars, start?, potExtension]
  | cons first rest =>
      have hroot : first ≠ '/' := by simpa [isAbsolute, hchars] using hdomain
      cases rest with
      | nil => simp [hchars, start?, potExtension, hroot]
      | cons second others =>
          by_cases hdot : first = '.' <;> by_cases hslash : second = '/' <;>
            simp [hchars, start?, hroot, hdot, hslash, eq_comm]

/-- The path of any other domain where no directory stands in front of it. -/
theorem components_potPath_of_empty {domain : String} (hdomain : isAbsolute domain = false) :
    components (potPath "" domain) =
      (if ['.', '/'] <+: domain.toList then [.current] else []) ++ ahead domain ++
        [.normal (baseName domain ++ "." ++ potExtension)] := by
  have hfile := (isAbsolute_file domain).trans hdomain
  have hpath : potPath "" domain = domain ++ "." ++ potExtension := by
    simp [potPath, join]
  rw [hpath, components_eq, names_file, start?_file hdomain]
  split <;> simp

/-- What stands in front of the last component of the path of a domain. -/
def folder (directory domain : String) : List Component :=
  if isAbsolute domain then .root :: ahead domain
  else if directory = "" then
    (if ['.', '/'] <+: domain.toList then [.current] else []) ++ ahead domain
  else components directory ++ ahead domain

/-- A path ends in the last piece of its domain, and what stands in front of it is given by the
rest. -/
theorem components_potPath (directory domain : String) :
    components (potPath directory domain) =
      folder directory domain ++ [.normal (baseName domain ++ "." ++ potExtension)] := by
  unfold folder
  split
  case isTrue habsolute => exact components_potPath_of_isAbsolute habsolute directory
  case isFalse hrelative =>
    rw [Bool.not_eq_true] at hrelative
    split
    case isTrue hempty =>
      subst hempty
      exact components_potPath_of_empty hrelative
    case isFalse hdirectory => exact components_potPath_of_ne hdirectory hrelative

theorem folder_eq_iff {directory domain : String} :
    folder directory domain = components directory ↔ StaysIn directory domain := by
  unfold folder StaysIn
  by_cases habsolute : isAbsolute domain = true
  · rw [if_pos habsolute, if_pos habsolute, eq_comm]
  · rw [if_neg habsolute, if_neg habsolute]
    by_cases hempty : directory = ""
    · subst hempty
      have hnone : components "" = [] := rfl
      rw [if_pos rfl, hnone, List.append_eq_nil_iff, and_comm]
      simp
    · simp [hempty]

/-- A domain stays in a directory exactly when its path is one name below the directory. -/
theorem oneBelow_potPath_iff (directory domain : String) :
    OneBelow directory (potPath directory domain) ↔ StaysIn directory domain := by
  rw [OneBelow, components_potPath, ← folder_eq_iff]
  constructor
  · rintro ⟨name, hpath⟩
    exact (List.append_inj_left' hpath rfl)
  · intro hfolder
    rw [hfolder]
    exact ⟨_, rfl⟩

/-- A domain without a slash stays in every directory. -/
theorem staysIn_of_notMem {domain : String} (hslash : '/' ∉ domain.toList) (directory : String) :
    StaysIn directory domain := by
  have hrelative : isAbsolute domain = false := by
    rw [isAbsolute, beq_eq_false_iff_ne]
    exact fun hroot => hslash (List.mem_of_head? hroot)
  unfold StaysIn
  rw [if_neg (ne_true_of_eq_false hrelative)]
  refine ⟨(baseName_of_notMem hslash).2, fun _ hdot => hslash (hdot.subset ?_)⟩
  decide

/-- Domains that stay in a directory share a path exactly when they end in the same piece. -/
theorem components_potPath_eq_iff {directory first second : String}
    (hfirst : StaysIn directory first) (hsecond : StaysIn directory second) :
    components (potPath directory first) = components (potPath directory second) ↔
      baseName first = baseName second := by
  rw [components_potPath, components_potPath, folder_eq_iff.mpr hfirst, folder_eq_iff.mpr hsecond,
    List.append_right_inj, List.singleton_inj, Component.normal.injEq, String.append_left_inj,
    String.append_left_inj]

/-! ## Writing -/

theorem writeDomains_cons (store : Store) (directory domain : String) (rest : List String)
    (files : FileSystem) :
    writeDomains store directory files (domain :: rest) =
      match files.write? (potPath directory domain)
          (Pot.format store.view domain).toUTF8 with
      | none => (files, .error (.unwritable directory (potPath directory domain)))
      | some after =>
          ((writeDomains store directory after rest).1,
            (writeDomains store directory after rest).2.map (potPath directory domain :: ·)) := by
  rfl

/-- Domains are written at their paths, and one that cannot be written is told by its path. -/
theorem writeDomains_eq (store : Store) (directory : String) (domains : List String)
    (files : FileSystem) :
    (writeDomains store directory files domains).2 = .ok (domains.map (potPath directory)) ∨
      ∃ domain ∈ domains, (writeDomains store directory files domains).2 =
        .error (.unwritable directory (potPath directory domain)) := by
  induction domains generalizing files with
  | nil => exact .inl rfl
  | cons domain rest ih =>
      rw [writeDomains_cons]
      split
      case h_1 => exact .inr ⟨domain, List.mem_cons_self, rfl⟩
      case h_2 after _ =>
        rcases ih after with hall | ⟨failed, hfailed, herror⟩
        · left
          simp only [hall, Except.map, List.map_cons]
        · right
          refine ⟨failed, List.mem_cons_of_mem _ hfailed, ?_⟩
          simp only [herror, Except.map]

/-- What can become of a dump: it writes all domains at their paths, or it fails at the path of one
of them or at the directory. -/
theorem dump_eq (store : Store) (directory : String) (files : FileSystem) :
    (dump store directory files).2 = .ok (store.messages.domains.map (potPath directory)) ∨
      (dump store directory files).2 = .error (.unwritable directory directory) ∨
      ∃ domain ∈ store.messages.domains, (dump store directory files).2 =
        .error (.unwritable directory (potPath directory domain)) := by
  unfold dump
  split
  case h_1 after _ =>
    exact (writeDomains_eq store directory store.messages.domains after).imp_right .inr
  case h_2 => exact .inr (.inl rfl)

/-- A dump has one path for every domain with messages.  All paths are one name below the directory
and lead to different places exactly when all domains stay in the directory and end in different
pieces, which holds of domains without slashes. -/
theorem dump_paths (locale : String) (catalogues : Catalogues) (directory : String)
    (files : FileSystem) :
    ∃ domains : List String,
      domains.Nodup ∧ (∀ domain, domain ∈ domains ↔ catalogues.translationsIn domain ≠ []) ∧
      ((dump ((Store.empty locale).importAll catalogues) directory files).2 =
          .ok (domains.map (potPath directory)) ∨
        (dump ((Store.empty locale).importAll catalogues) directory files).2 =
          .error (.unwritable directory directory) ∨
        ∃ domain ∈ domains, (dump ((Store.empty locale).importAll catalogues) directory files).2 =
          .error (.unwritable directory (potPath directory domain))) ∧
      ((∀ domain ∈ domains, OneBelow directory (potPath directory domain)) ∧
          (domains.map fun domain => components (potPath directory domain)).Nodup ↔
        (∀ domain ∈ domains, StaysIn directory domain) ∧ (domains.map baseName).Nodup) ∧
      ((∀ domain ∈ domains, '/' ∉ domain.toList) →
        (∀ domain ∈ domains, StaysIn directory domain) ∧ (domains.map baseName).Nodup) := by
  have hnodup := ((Store.empty locale).importAll catalogues).messages.nodup_domains
  refine ⟨_, hnodup, fun domain => ?_, dump_eq _ directory files, ?_, ?_⟩
  · rw [Store.mem_domains_importAll]
    exact or_iff_right List.not_mem_nil
  · simp only [oneBelow_potPath_iff]
    apply and_congr_right
    intro hstays
    rw [List.Nodup, List.Nodup, List.pairwise_map, List.pairwise_map]
    apply List.Pairwise.iff_of_mem
    intro first second hfirst hsecond
    exact not_congr (components_potPath_eq_iff (hstays first hfirst) (hstays second hsecond))
  · intro hslash
    have hsame : ∀ domain ∈ ((Store.empty locale).importAll catalogues).messages.domains,
        baseName domain = domain :=
      fun domain hdomain => (baseName_of_notMem (hslash domain hdomain)).1
    refine ⟨fun domain hdomain => staysIn_of_notMem (hslash domain hdomain) directory, ?_⟩
    rwa [List.map_congr_left hsame, List.map_id']

/-- Messages of the domains of a parent directory, of a dotted name and of the name itself. -/
def dottedDomains : Catalogues :=
  .ofMessages "messages" "a.twig" (["../x", "./x", "x"].map fun domain =>
    ⟨"Open", 1, none, some (.literal domain), none, none⟩)

/-- The first path lies above the directory, and the other two domains share a file. -/
theorem dump_dottedDomains :
    (dump ((Store.empty "en").importAll dottedDomains) "out" (.bare [])).2 =
      .ok ["out/../x.pot", "out/./x.pot", "out/x.pot"] ∧
    components "out/../x.pot" = components "out" ++ [.parent, .normal "x.pot"] ∧
    ¬ OneBelow "out" "out/../x.pot" ∧ components "out/./x.pot" = components "out/x.pot" := by
  have habove : components "out/../x.pot" = components "out" ++ [.parent, .normal "x.pot"] := by
    decide
  refine ⟨rfl, habove, ?_, by decide⟩
  rintro ⟨name, hname⟩
  rw [habove, List.append_right_inj] at hname
  cases hname

end Command

end TemplateMessages

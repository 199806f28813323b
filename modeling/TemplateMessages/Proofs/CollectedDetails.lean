import TemplateMessages.Proofs.Merging

/-!
# What entries collect

Messages of one key join in one entry, which says what each of them says: a note
or a place stands in the entries of a domain exactly when a message that is filed
there brings it.  So nothing is lost, and nothing comes from elsewhere.
-/

namespace TemplateMessages

namespace Catalogue

variable {α : Type}

/-- What is seen of joined details is what is seen of either. -/
def Unites (seen : Details → List α) : Prop :=
  ∀ first second x, x ∈ seen (first.merge second) ↔ x ∈ seen first ∨ x ∈ seen second

theorem unites_comments : Unites Details.comments :=
  fun _ _ _ => List.mem_append

theorem unites_references : Unites fun details => details.references.toList :=
  fun _ _ _ => References.mem_insertAll

/-- Some entry says this. -/
def Says (seen : Details → List α) (x : α) (translations : List Translation) : Prop :=
  ∃ translation ∈ translations, x ∈ seen translation.details

theorem says_iff {seen : Details → List α} {x : α} (catalogue : Catalogue) :
    Says seen x catalogue.translations ↔
      ∃ key details, catalogue.get? key = some details ∧ x ∈ seen details := by
  have hget : ∀ key details, catalogue.get? key = some details ↔ (key, details) ∈ catalogue.entries :=
    fun key details => Assoc.get?_eq_some_iff catalogue.nodup
  simp [Says, translations, hget]

/-- What joins an entry is seen of it next to what was seen before. -/
theorem Unites.mem_join {seen : Details → List α} (hseen : Unites seen) {x : α} (added : Details)
    (present : Option Details) :
    x ∈ seen (added.join present) ↔
      (∃ details, present = some details ∧ x ∈ seen details) ∨ x ∈ seen added := by
  cases present with
  | none => simp [Details.join]
  | some details => simpa [Details.join] using hseen details added x

theorem says_add {seen : Details → List α} (hseen : Unites seen) {x : α} (catalogue : Catalogue)
    (translation : Translation) :
    Says seen x (catalogue.add translation).translations ↔
      Says seen x catalogue.translations ∨ x ∈ seen translation.details := by
  have hjoin := hseen.mem_join (x := x) translation.details (catalogue.get? translation.key)
  have hself := get?_add_self catalogue translation
  rw [says_iff, says_iff]
  constructor
  · rintro ⟨key, details, hget, hx⟩
    by_cases hkey : key = translation.key
    · rw [hkey, hself] at hget
      rw [← Option.some.inj hget] at hx
      exact (hjoin.mp hx).imp_left fun ⟨present, hpresent, hseen⟩ => ⟨_, present, hpresent, hseen⟩
    · rw [get?_add_of_ne _ _ hkey] at hget
      exact .inl ⟨key, details, hget, hx⟩
  · rintro (⟨key, details, hget, hx⟩ | hx)
    · by_cases hkey : key = translation.key
      · exact ⟨translation.key, _, hself, hjoin.mpr (.inl ⟨details, hkey ▸ hget, hx⟩)⟩
      · exact ⟨key, details, (get?_add_of_ne _ _ hkey).trans hget, hx⟩
    · exact ⟨translation.key, _, hself, hjoin.mpr (.inr hx)⟩

end Catalogue

namespace Catalogues

open TemplateMessages.Catalogue

variable {α : Type} {seen : Details → List α} {x : α}

theorem says_translationsIn_add (hseen : Unites seen) (catalogues : Catalogues) (domain name : String)
    (translation : Translation) :
    Says seen x ((catalogues.add domain translation).translationsIn name) ↔
      Says seen x (catalogues.translationsIn name) ∨ domain = name ∧ x ∈ seen translation.details := by
  by_cases hname : name = domain
  · subst hname
    rw [translationsIn, get?_add_self, Option.getD_some, says_add hseen]
    simp [translationsIn]
  · rw [translationsIn, get?_add_of_ne _ hname]
    simp [translationsIn, Ne.symm hname]

/-- The entries of a domain say what the messages that are filed there say. -/
theorem says_ofMessages (hseen : Unites seen) (defaultDomain path : String) (messages : List Message)
    (domain : String) :
    Says seen x ((ofMessages defaultDomain path messages).translationsIn domain) ↔
      ∃ message ∈ messages, message.filedUnder defaultDomain = domain ∧
        x ∈ seen (message.details path) := by
  have hfold : ∀ catalogues : Catalogues,
      Says seen x ((messages.foldl (addMessage defaultDomain path) catalogues).translationsIn domain) ↔
        Says seen x (catalogues.translationsIn domain) ∨
          ∃ message ∈ messages, message.filedUnder defaultDomain = domain ∧
            x ∈ seen (message.details path) := by
    induction messages with
    | nil => simp
    | cons message rest ih =>
        intro catalogues
        rw [List.foldl_cons, ih, addMessage, says_translationsIn_add hseen, or_assoc,
          List.exists_mem_cons_iff]
  have hnone : ¬ Says seen x (translationsIn .empty domain) := by
    rintro ⟨_, hmem, -⟩
    exact absurd hmem List.not_mem_nil
  rw [ofMessages, hfold, or_iff_right hnone]

end Catalogues

end TemplateMessages

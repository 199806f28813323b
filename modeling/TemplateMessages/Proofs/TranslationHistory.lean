import Mathlib.Data.List.Basic
import Mathlib.Data.List.Induction
import TemplateMessages.Gettext.Translate

/-!
# Translations of a catalogue with a history

A catalogue is filled by calls that add a message, add a message with plural
forms, or choose the locale.  What it answers later can be read off the list of
these calls: the latest one for exactly the message that is asked for counts.
The catalogue itself keeps a message under one text for its context and its
original.  Two messages share this text only when a context or an original holds
the separator U+0004.
-/

namespace TemplateMessages.Gettext

/-- A call that changes a catalogue. -/
inductive Change where
  | addMessage (locale domain : String) (context : Option String) (original translation : String)
  | addPlural (locale domain : String) (context : Option String) (original plural : String)
      (forms : List String)
  | setLocale (locale : String)

namespace Catalog

def change (catalog : Catalog) : Change → Catalog
  | .addMessage locale domain context original translation =>
      catalog.addMessage locale domain context original translation
  | .addPlural locale domain context original plural forms =>
      catalog.addPluralMessage locale domain context original plural forms
  | .setLocale locale => catalog.setLocale locale

/-- The catalogue after a sequence of calls. -/
def after (catalog : Catalog) (history : List Change) : Catalog :=
  history.foldl change catalog

end Catalog

/-! ## What a history says -/

namespace Change

/-- The locale that a call chooses. -/
def locale? : Change → Option String
  | .setLocale locale => some locale
  | _ => none

/-- The translation that a call gives to a message. -/
def translation? (locale domain : String) (context : Option String) (original : String) :
    Change → Option String
  | .addMessage locale' domain' context' original' translation =>
      if locale' = locale ∧ domain' = domain ∧ context' = context ∧ original' = original then
        some translation
      else none
  | _ => none

/-- The plural forms that a call gives to a message with a plural. -/
def forms? (locale domain : String) (context : Option String) (original plural : String) :
    Change → Option (List String)
  | .addPlural locale' domain' context' original' plural' forms =>
      if locale' = locale ∧ domain' = domain ∧ context' = context ∧ original' = original ∧
          plural' = plural then
        some forms
      else none
  | _ => none

end Change

/-- What the latest call reports, of those in a history that report something. -/
def latest {α : Type} (report : Change → Option α) (history : List Change) : Option α :=
  history.reverse.findSome? report

/-- The form of a count: the first for one, the second for any other, and the last one when there
is no second. -/
def countedForm? (forms : List String) (count : Nat) : Option String :=
  if count = 1 then forms.head? else forms[1]?.or forms.getLast?

/-- A text that is found, or another one where none is found or the one found is empty. -/
def textOr (fallback : String) : Option String → String
  | some text => if text = "" then fallback else text
  | none => fallback

/-- The text that a history has for a request, before its tokens are replaced. -/
def textAfter (start : String) (history : List Change) (request : Request) : String :=
  let locale := (latest Change.locale? history).getD start
  let domain := request.domain.getD "messages"
  match request.count with
  | none =>
      textOr request.original
        (latest (Change.translation? locale domain request.context request.original) history)
  | some count =>
      let plural := request.plural.getD request.original
      let forms := latest (Change.forms? locale domain request.context request.original plural) history
      textOr (if count = 1 then request.original else plural) (forms.bind (countedForm? · count))

/-- The tokens of a request, with the count bound where it is given and not bound yet. -/
def boundTokens (request : Request) : Assoc String String :=
  match request.count with
  | some count =>
      if "%count%" ∈ Assoc.keys request.replacements then request.replacements
      else request.replacements ++ [("%count%", toString count)]
  | none => request.replacements

/-! ## Identifiers without a separator -/

/-- Neither the context nor the original of a message holds the separator of identifiers. -/
structure Unseparated (context : Option String) (original : String) : Prop where
  context : ∀ text ∈ context, '\u0004' ∉ text.toList
  original : '\u0004' ∉ original.toList

/-- A call does not write a message that holds the separator. -/
def Change.Unseparated : Change → Prop
  | .addMessage _ _ context original _ => Gettext.Unseparated context original
  | .addPlural _ _ context original _ _ => Gettext.Unseparated context original
  | .setLocale _ => True

theorem toList_messageId_some (context original : String) :
    (messageId (some context) original).toList = context.toList ++ '\u0004' :: original.toList := by
  simp [messageId, String.toList_append]

/-- Messages without the separator share an identifier only when they are the same. -/
theorem messageId_eq_iff {context context' : Option String} {original original' : String}
    (hfirst : Unseparated context original) (hsecond : Unseparated context' original') :
    messageId context original = messageId context' original' ↔
      context = context' ∧ original = original' := by
  constructor
  · intro heq
    cases context with
    | none =>
        cases context' with
        | none => exact ⟨rfl, heq⟩
        | some text =>
            apply absurd _ hfirst.original
            rw [show original = messageId (some text) original' from heq, toList_messageId_some]
            exact List.mem_append_right _ List.mem_cons_self
    | some text =>
        cases context' with
        | none =>
            apply absurd _ hsecond.original
            rw [← show messageId (some text) original = original' from heq, toList_messageId_some]
            exact List.mem_append_right _ List.mem_cons_self
        | some text' =>
            have hlists := congrArg String.toList heq
            rw [toList_messageId_some, toList_messageId_some,
              List.append_cons_inj_of_notMem (hfirst.context text rfl) hfirst.original] at hlists
            obtain ⟨htext, -, horiginal⟩ := hlists
            exact ⟨congrArg some (String.toList_injective htext), String.toList_injective horiginal⟩
  · rintro ⟨rfl, rfl⟩
    rfl

/-- Whether two messages are kept in one place of a catalogue. -/
theorem messageKey_eq_iff {locale locale' domain domain' : String} {context context' : Option String}
    {original original' : String} (hfirst : Unseparated context original)
    (hsecond : Unseparated context' original') :
    (⟨locale, domain, messageId context original⟩ : MessageKey) =
        ⟨locale', domain', messageId context' original'⟩ ↔
      locale = locale' ∧ domain = domain' ∧ context = context' ∧ original = original' := by
  rw [MessageKey.mk.injEq, messageId_eq_iff hfirst hsecond]

/-! ## One call and a whole history -/

theorem latest_concat {α : Type} (report : Change → Option α) (history : List Change) (call : Change) :
    latest report (history ++ [call]) = (report call).or (latest report history) := by
  unfold latest
  rw [List.reverse_concat, List.findSome?_cons]
  cases report call <;> rfl

namespace Catalog

theorem after_concat (catalog : Catalog) (history : List Change) (call : Change) :
    catalog.after (history ++ [call]) = (catalog.after history).change call := by
  rw [after, List.foldl_concat]
  rfl

section Step

variable (catalog : Catalog) (call : Change)

theorem locale_change : (catalog.change call).locale = call.locale?.getD catalog.locale := by
  cases call <;> rfl

variable {call} {context : Option String} {original : String} (locale domain : String)

/-- One call gives a message its translation, or leaves it with the one it has. -/
theorem get?_messages_change (hcall : call.Unseparated) (hasked : Unseparated context original) :
    (catalog.change call).messages.get? ⟨locale, domain, messageId context original⟩ =
      (call.translation? locale domain context original).or
        (catalog.messages.get? ⟨locale, domain, messageId context original⟩) := by
  cases call with
  | addMessage locale' domain' context' original' translation =>
      simp only [change, addMessage, Change.translation?]
      split
      case isTrue hsame =>
        obtain ⟨rfl, rfl, rfl, rfl⟩ := hsame
        exact Assoc.get?_put_self _ _ _
      case isFalse hother =>
        apply Assoc.get?_put_of_ne
        intro hkey
        exact hother ((messageKey_eq_iff hcall hasked).mp hkey.symm)
  | addPlural => rfl
  | setLocale => rfl

/-- One call gives a message with a plural its forms, or leaves it with those it has. -/
theorem get?_plurals_change (hcall : call.Unseparated) (hasked : Unseparated context original)
    (plural : String) :
    (catalog.change call).plurals.get? (⟨locale, domain, messageId context original⟩, plural) =
      (call.forms? locale domain context original plural).or
        (catalog.plurals.get? (⟨locale, domain, messageId context original⟩, plural)) := by
  cases call with
  | addMessage => rfl
  | addPlural locale' domain' context' original' plural' forms =>
      simp only [change, addPluralMessage, Change.forms?]
      split
      case isTrue hsame =>
        obtain ⟨rfl, rfl, rfl, rfl, rfl⟩ := hsame
        exact Assoc.get?_put_self _ _ _
      case isFalse hother =>
        apply Assoc.get?_put_of_ne
        intro hkey
        obtain ⟨hkey, hplural⟩ := Prod.mk.inj hkey.symm
        obtain ⟨hlocale, hdomain, hcontext, horiginal⟩ := (messageKey_eq_iff hcall hasked).mp hkey
        exact hother ⟨hlocale, hdomain, hcontext, horiginal, hplural⟩
  | setLocale => rfl

end Step

section Run

variable {context : Option String} {original : String} {history : List Change}

theorem locale_after (start : String) (history : List Change) :
    ((empty start).after history).locale = (latest Change.locale? history).getD start := by
  induction history using List.reverseRecOn with
  | nil => rfl
  | append_singleton history call ih =>
      rw [after_concat, locale_change, ih, latest_concat]
      cases call.locale? <;> rfl

theorem get?_messages_after (hhistory : ∀ call ∈ history, call.Unseparated)
    (hasked : Unseparated context original) (start locale domain : String) :
    ((empty start).after history).messages.get? ⟨locale, domain, messageId context original⟩ =
      latest (Change.translation? locale domain context original) history := by
  induction history using List.reverseRecOn with
  | nil => rfl
  | append_singleton history call ih =>
      rw [List.forall_mem_append, List.forall_mem_singleton] at hhistory
      rw [after_concat, get?_messages_change _ _ _ hhistory.2 hasked, ih hhistory.1, latest_concat]

theorem get?_plurals_after (hhistory : ∀ call ∈ history, call.Unseparated)
    (hasked : Unseparated context original) (start locale domain plural : String) :
    ((empty start).after history).plurals.get? (⟨locale, domain, messageId context original⟩, plural) =
      latest (Change.forms? locale domain context original plural) history := by
  induction history using List.reverseRecOn with
  | nil => rfl
  | append_singleton history call ih =>
      rw [List.forall_mem_append, List.forall_mem_singleton] at hhistory
      rw [after_concat, get?_plurals_change _ _ _ hhistory.2 hasked, ih hhistory.1, latest_concat]

end Run

/-- The form for a count, said by position and said by case. -/
theorem form?_eq_countedForm? (forms : List String) (count : Nat) :
    form? forms count = countedForm? forms count := by
  unfold form? countedForm?
  split
  case isTrue => rw [Nat.zero_min, List.head?_eq_getElem?]
  case isFalse =>
    match forms with
    | [] => rfl
    | [form] => rfl
    | first :: second :: rest =>
        rw [Nat.min_eq_left (by simp)]
        rfl

/-- A translation that says nothing counts as none. -/
theorem getD_present (fallback : String) (found : Option String) :
    (found.bind present).getD fallback = textOr fallback found := by
  cases found with
  | none => rfl
  | some text =>
      rw [Option.bind_some, present, textOr]
      by_cases hempty : text = "" <;> simp [hempty]

/-- What is looked up in a catalogue is what its history says. -/
theorem answer_after {history : List Change} {request : Request}
    (hhistory : ∀ call ∈ history, call.Unseparated)
    (hasked : Unseparated request.context request.original) (start : String) :
    ((empty start).after history).answer request.lookup = textAfter start history request := by
  have hlocale := locale_after start history
  have hmessage := get?_messages_after hhistory hasked start
  have hplural := get?_plurals_after hhistory hasked start
  unfold answer textAfter keyOf Request.lookup Lookup.ofRequest
  cases request.count with
  | none =>
      dsimp only [Option.map_none]
      rw [hlocale, hmessage, getD_present]
      rfl
  | some count =>
      dsimp only [Option.map_some]
      rw [hlocale, hplural, ← Option.bind_assoc, getD_present]
      simp only [form?_eq_countedForm?]
      rfl

end Catalog

/-- The count is bound behind the other tokens. -/
theorem tokens_eq_boundTokens (request : Request) : request.tokens = boundTokens request := by
  unfold Request.tokens boundTokens
  cases request.count with
  | none => rfl
  | some count =>
      have htoken : Request.countToken = "%count%" := rfl
      dsimp only
      rw [htoken]
      by_cases hbound : "%count%" ∈ Assoc.keys request.replacements
      · rw [if_pos hbound, if_pos (Assoc.has_iff_mem_keys.mpr hbound)]
      · rw [if_neg hbound, if_neg (mt Assoc.has_iff_mem_keys.mp hbound)]
        exact Assoc.put_of_notMem _ hbound

/-- A translator is a map from messages to their latest translations, with the text that is asked
for where there is none. -/
theorem translate_after {history : List Change} {request : Request}
    (hhistory : ∀ call ∈ history, call.Unseparated)
    (hasked : Unseparated request.context request.original) (start : String) :
    ((Catalog.empty start).after history).translate request =
      substitute (boundTokens request) (textAfter start history request) := by
  rw [Catalog.translate, Catalog.answer_after hhistory hasked, tokens_eq_boundTokens]

/-- A message that is translated twice, the second time behind a call for another context. -/
def greetings : List Change :=
  [.addMessage "fr" "messages" none "Hi" "Bonjour", .setLocale "fr",
    .addMessage "fr" "messages" (some "menu") "Hi" "", .addMessage "fr" "messages" none "Hi" "Salut",
    .addPlural "fr" "shop" none "an apple" "%count% apples" ["une pomme", "%count% pommes"]]

/-- Three apples in a domain of their own. -/
def applesRequest : Request :=
  ⟨"an apple", [], some "shop", none, some "%count% apples", some 3⟩

theorem translate_after_greetings :
    ((Catalog.empty "en").after greetings).translate applesRequest = "3 pommes" ∧
      ((Catalog.empty "en").after greetings).translate ⟨"Hi", [], none, none, none, none⟩ = "Salut" := by
  have hhistory : ∀ call ∈ greetings, call.Unseparated := by
    simp only [greetings, List.forall_mem_cons]
    refine ⟨⟨by simp, by decide⟩, trivial, ⟨by simp, by decide⟩, ⟨by simp, by decide⟩,
      ⟨by simp, by decide⟩, nofun⟩
  constructor
  · rw [translate_after hhistory ⟨by simp [applesRequest], by decide⟩]
    rfl
  · rw [translate_after hhistory ⟨by simp, by decide⟩]
    rfl

end TemplateMessages.Gettext

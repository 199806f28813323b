import TemplateMessages.Proofs.OpenPlaceholders

/-!
# Replacements that are written out

The mapping of a trans tag may compute its keys.  Which placeholders the mapping
leaves open is decided when the tag is compiled, from the keys that are texts; the
bindings of these placeholders come behind the mapping and replace what a computed
key has bound to the same token.  Every other entry of the mapping is kept, and so
are all of them when the keys are texts.
-/

namespace TemplateMessages

/-- The values of an association changed, its keys kept. -/
theorem Assoc.get?_map_value {κ α β : Type} [DecidableEq κ] (change : α → β) (key : κ)
    (pairs : Assoc κ α) :
    Assoc.get? key (pairs.map fun entry => (entry.1, change entry.2)) =
      (Assoc.get? key pairs).map change := by
  induction pairs with
  | nil => rfl
  | cons entry rest ih =>
      by_cases hkey : entry.1 = key <;> simp [Assoc.get?, hkey, ih]

namespace Template

open TemplateMessages.Gettext (Catalog Request)

namespace TransTag

variable {catalog : Catalog} {context : Context}

/-- No entry has the token of the placeholder for its key as a text. -/
def Unwritten (entries : List (Expr × Expr)) (name : String) : Prop :=
  ∀ entry ∈ entries, entry.1.stringConstant? ≠ some (Placeholder.token name)

instance (entries : List (Expr × Expr)) (name : String) : Decidable (Unwritten entries name) :=
  inferInstanceAs (Decidable (∀ entry ∈ entries, _ ≠ _))

theorem unwritten_iff {entries : List (Expr × Expr)} {name : String} :
    Unwritten entries name ↔ (entries.any fun entry =>
      entry.1.stringConstant? == some (Placeholder.token name)) = false := by
  simp [Unwritten]

/-- Once a placeholder has an entry, the others are as they were. -/
theorem unwritten_concat_iff {entries : List (Expr × Expr)} {name other : String} {expr : Expr} :
    Unwritten (entries ++ [(.string (Placeholder.token name), expr)]) other ↔
      Unwritten entries other ∧ other ≠ name := by
  have hkey : (Expr.string (Placeholder.token name)).stringConstant? =
      some (Placeholder.token name) := rfl
  unfold Unwritten
  rw [List.forall_mem_append, List.forall_mem_singleton, hkey, ne_eq, Option.some_inj,
    token_injective.eq_iff, eq_comm]

/-- What the bindings of placeholders add to entries: each placeholder that is not written gets its
value, and nothing else is changed. -/
structure Extends (catalog : Catalog) (context : Context) (tag : TransTag)
    (entries : List (Expr × Expr)) (names : List String)
    (members replacements : Assoc String Value) : Prop where
  kept : ∀ key, (∀ name ∈ names, Unwritten entries name → Placeholder.token name ≠ key) →
    replacements.get? key = members.get? key
  bound : ∀ name ∈ names, Unwritten entries name →
    ∃ value, tag.placeholderValue catalog context name = .ok value ∧
      replacements.get? (Placeholder.token name) = some value

/-- The binding of one more placeholder comes in front of the others. -/
theorem Extends.cons_of_unwritten {tag : TransTag} {entries : List (Expr × Expr)} {name : String}
    {names : List String} {expr : Expr} {value : Value} {members replacements : Assoc String Value}
    (hunwritten : Unwritten entries name)
    (hvalue : tag.placeholderValue catalog context name = .ok value)
    (hextends : Extends catalog context tag
      (entries ++ [(.string (Placeholder.token name), expr)]) names
      (members.put (Placeholder.token name) value) replacements) :
    Extends catalog context tag entries (name :: names) members replacements where
  kept := by
    intro key hother
    obtain ⟨hfirst, hrest⟩ := List.forall_mem_cons.mp hother
    rw [hextends.kept key fun other hmem hfree => hrest other hmem (unwritten_concat_iff.mp hfree).1]
    exact Assoc.get?_put_of_ne (Ne.symm (hfirst hunwritten)) _ _
  bound := by
    intro other hmem hfree
    by_cases hsame : other = name
    · subst hsame
      refine ⟨value, hvalue, ?_⟩
      rw [hextends.kept _ fun later _ hlater heq =>
        (unwritten_concat_iff.mp hlater).2 (token_injective heq)]
      exact Assoc.get?_put_self _ _ _
    · exact hextends.bound other ((List.mem_cons.mp hmem).resolve_left hsame)
        (unwritten_concat_iff.mpr ⟨hfree, hsame⟩)

/-- A placeholder that is written stays as it is written. -/
theorem Extends.cons_of_written {tag : TransTag} {entries : List (Expr × Expr)} {name : String}
    {names : List String} {members replacements : Assoc String Value}
    (hwritten : ¬ Unwritten entries name)
    (hextends : Extends catalog context tag entries names members replacements) :
    Extends catalog context tag entries (name :: names) members replacements where
  kept := fun key hother => hextends.kept key (List.forall_mem_cons.mp hother).2
  bound := by
    intro other hmem hfree
    rcases List.mem_cons.mp hmem with rfl | hmem
    · exact absurd hfree hwritten
    · exact hextends.bound other hmem hfree

/-- The placeholders of a message are bound over the entries that are written, whatever these
compute.  The induction is on the placeholders; each one that is bound becomes an entry. -/
theorem exists_extends_of_foldl {tag : TransTag} {names : List String} {entries : List (Expr × Expr)}
    {replacements : Assoc String Value}
    (hreplacements : Expr.evaluateEntries [transFilter catalog] context []
      (names.foldl (bindPlaceholder tag.count) entries) = .ok replacements) :
    ∃ members, Expr.evaluateEntries [transFilter catalog] context [] entries = .ok members ∧
      Extends catalog context tag entries names members replacements := by
  induction names generalizing entries with
  | nil => exact ⟨replacements, hreplacements, ⟨fun _ _ => rfl, by simp⟩⟩
  | cons name rest ih =>
      rw [List.foldl_cons] at hreplacements
      by_cases hunwritten : Unwritten entries name
      · obtain ⟨expr, hbind, hexpr⟩ :=
          @exists_bindPlaceholder_eq catalog context tag _ _ (unwritten_iff.mp hunwritten)
        rw [hbind] at hreplacements
        obtain ⟨extended, hextended, hextends⟩ := ih hreplacements
        rw [Expr.evaluateEntries_append] at hextended
        obtain ⟨members, hmembers, hlast⟩ := bind_eq_ok.mp hextended
        obtain ⟨key, hkey, hlast⟩ := bind_eq_ok.mp hlast
        obtain ⟨value, hvalue, hlast⟩ := bind_eq_ok.mp hlast
        obtain rfl : Value.string (Placeholder.token name) = key := Except.ok.inj hkey
        obtain rfl : members.put (Placeholder.token name) value = extended := Except.ok.inj hlast
        exact ⟨members, hmembers, .cons_of_unwritten hunwritten (hexpr ▸ hvalue) hextends⟩
      · have hsame : bindPlaceholder tag.count entries name = entries := by
          unfold bindPlaceholder
          rw [if_pos (by simpa using mt unwritten_iff.mpr hunwritten)]
        rw [hsame] at hreplacements
        obtain ⟨members, hmembers, hextends⟩ := ih hreplacements
        exact ⟨members, hmembers, hextends.cons_of_written hunwritten⟩

/-! ## The request -/

/-- The replacements of the request that a tag makes are what its own are worth. -/
theorem exists_of_request? {tag : TransTag} {request : Request}
    (hrequest : tag.expression.request? catalog context = some (.ok request)) :
    ∃ value, tag.replacements.evaluate [transFilter catalog] context = .ok value ∧
      replacementsOf value = .ok request.replacements := by
  rw [expression, Expr.request?, if_pos rfl] at hrequest
  obtain ⟨subject, _, hrequest⟩ := bind_eq_ok.mp (Option.some.inj hrequest)
  obtain ⟨values, hbind, hrequest⟩ := bind_eq_ok.mp hrequest
  have hparameter : transParameters[0]? = some "replacements" := rfl
  have hslot := slot_bindArguments hparameter hbind
  have hvalue : tag.replacements.evaluate [transFilter catalog] context = .ok (slot values 0) := by
    revert hslot
    cases tag.plural <;> cases tag.count <;> exact id
  obtain ⟨replacements, hreplacements, hrequest⟩ := bind_eq_ok.mp hrequest
  obtain ⟨count, -, hrequest⟩ := bind_eq_ok.mp hrequest
  obtain rfl := Except.ok.inj hrequest
  exact ⟨_, hvalue, hreplacements⟩

/-- A placeholder that the mapping of the tag does not write is left open, whatever keys the mapping
computes. -/
def LeavesOpen (tag : TransTag) (name : String) : Prop :=
  name ∈ tag.placeholders ∧ Unwritten tag.writtenEntries name

/-- Written keys that are texts leave no key of the mapping open. -/
theorem token_ne_of_literalKeys {tag : TransTag} {own : List (Expr × Expr)}
    {members : Assoc String Value} (hvars : tag.vars = some (.map own)) (hkeys : tag.LiteralKeys)
    (hmembers : Expr.evaluateEntries [transFilter catalog] context [] own = .ok members)
    {key : String} {value : Value} (hkey : members.get? key = some value) (name : String)
    (hopen : tag.LeavesOpen name) : Placeholder.token name ≠ key := by
  rintro rfl
  have hown : tag.writtenEntries = own := by rw [writtenEntries, hvars]
  have hunwritten := unwritten_iff.mp hopen.2
  rw [LiteralKeys, hown] at hkeys
  have hhas := Expr.has_evaluateEntries hkeys hmembers (Placeholder.token name)
  rw [hown] at hunwritten
  rw [hunwritten, Assoc.has, hkey] at hhas
  exact absurd hhas Bool.noConfusion

/-- What the mapping that a tag writes out binds is bound for the translator too, unless it is the
token of a placeholder that is left open; this token is bound to what the placeholder stands for.
Where all keys are texts everything that is written is bound. -/
theorem replacements_of_written {tag : TransTag} {own : List (Expr × Expr)}
    {members : Assoc String Value} {request : Request} {key : String} {value : Value}
    (hvars : tag.vars = some (.map own))
    (hmembers : (Expr.map own).evaluate [transFilter catalog] context = .ok (.object members))
    (hrequest : tag.expression.request? catalog context = some (.ok request))
    (hkey : members.get? key = some value) :
    ((∀ name, tag.LeavesOpen name → Placeholder.token name ≠ key) →
      request.replacements.get? key = some value.display) ∧
    (∀ name, tag.LeavesOpen name → Placeholder.token name = key →
      ∃ stands, tag.placeholderValue catalog context name = .ok stands ∧
        request.replacements.get? key = some stands.display) ∧
    (tag.LiteralKeys → request.replacements.get? key = some value.display) := by
  obtain ⟨mapping, hmapping, hpassed⟩ := exists_of_request? hrequest
  rw [replacements_of_map hvars, bindings, Expr.evaluate] at hmapping
  obtain ⟨replacements, hreplacements, hobject⟩ := bind_eq_ok.mp hmapping
  obtain rfl : .object replacements = mapping := Except.ok.inj hobject
  obtain ⟨found, hfound, hextends⟩ := exists_extends_of_foldl hreplacements
  obtain ⟨_, hwritten, hsame⟩ := bind_eq_ok.mp hmembers
  obtain rfl := Value.object.inj (Except.ok.inj hsame)
  obtain rfl := Except.ok.inj (hfound.symm.trans hwritten)
  have hown : tag.writtenEntries = own := by rw [writtenEntries, hvars]
  have hdisplayed : ∀ other, request.replacements.get? other =
      (replacements.get? other).map Value.display := by
    intro other
    rw [← Except.ok.inj hpassed]
    exact Assoc.get?_map_value Value.display other replacements
  have hkept : (∀ name, tag.LeavesOpen name → Placeholder.token name ≠ key) →
      request.replacements.get? key = some value.display := by
    intro hother
    rw [hdisplayed, hextends.kept key fun name hmem hfree => hother name ⟨hmem, hown ▸ hfree⟩, hkey]
    rfl
  refine ⟨hkept, ?_, fun hkeys => hkept (token_ne_of_literalKeys hvars hkeys hwritten hkey)⟩
  rintro name ⟨hmem, hfree⟩ rfl
  obtain ⟨stands, hstands, hbound⟩ := hextends.bound name hmem (hown ▸ hfree)
  exact ⟨stands, hstands, by rw [hdisplayed, hbound]; rfl⟩

/-- The tag of `{% trans with {(k): 'Bob'} %}Hi %name%{% endtrans %}`. -/
def computedKey : TransTag :=
  ⟨"Hi %name%", none, none, none, some (.map [(.name "k", .string "Bob")]), none, none, 1⟩

/-- A computed key is bound as it is written, as long as it is not the token of the placeholder. -/
theorem replacements_of_computedKey :
    ∃ request, computedKey.expression.request? (.empty "en") [("k", .string "%who%")] =
        some (.ok request) ∧
      (Expr.map [(.name "k", .string "Bob")]).evaluate [transFilter (.empty "en")]
        [("k", .string "%who%")] = .ok (.object [("%who%", .string "Bob")]) ∧
      (∀ name, computedKey.LeavesOpen name → Placeholder.token name ≠ "%who%") ∧
      request.replacements.get? "%who%" = some "Bob" := by
  have hrequest : computedKey.expression.request? (.empty "en") [("k", .string "%who%")] =
      some (.ok ⟨"Hi %name%", [("%who%", "Bob"), ("%name%", "")], some "messages", none, none, none⟩) :=
    rfl
  have hmembers : (Expr.map [(.name "k", .string "Bob")]).evaluate [transFilter (.empty "en")]
      [("k", .string "%who%")] = .ok (.object [("%who%", .string "Bob")]) := rfl
  have hopen : ∀ name, computedKey.LeavesOpen name → Placeholder.token name ≠ "%who%" := by
    intro name hopen
    have hnames : computedKey.placeholders = ["name"] := rfl
    have hname : name ∈ computedKey.placeholders := hopen.1
    rw [hnames, List.mem_singleton] at hname
    subst hname
    decide
  have hvars : computedKey.vars = some (.map [(.name "k", .string "Bob")]) := rfl
  have hkey : Assoc.get? "%who%" [("%who%", Value.string "Bob")] = some (.string "Bob") := rfl
  exact ⟨_, hrequest, hmembers, hopen,
    (replacements_of_written hvars hmembers hrequest hkey).1 hopen⟩

/-- Whatever the mapping of the tag binds is bound for the translator. -/
def KeepsWritten (catalog : Catalog) (context : Context) (tag : TransTag) : Prop :=
  ∀ (own : List (Expr × Expr)) (members : Assoc String Value) (request : Request) (key : String)
    (value : Value), tag.vars = some (.map own) →
      (Expr.map own).evaluate [transFilter catalog] context = .ok (.object members) →
      tag.expression.request? catalog context = some (.ok request) →
      members.get? key = some value → request.replacements.get? key = some value.display

/-- What the tag's mapping and the request bind the key to. -/
def boundTo? (catalog : Catalog) (context : Context) (key : String) (tag : TransTag) :
    Option (String × String) :=
  match tag.vars with
  | some (.map own) =>
      match (Expr.map own).evaluate [transFilter catalog] context,
          tag.expression.request? catalog context with
      | .ok (.object members), some (.ok request) =>
          match Assoc.get? key members, request.replacements.get? key with
          | some value, some passed => some (value.display, passed)
          | _, _ => none
      | _, _ => none
  | _ => none

end TransTag

/-- A computed key that is the token of a placeholder loses its value to the variable. -/
theorem Session.computed_key_not_kept :
    ∃ tag, ((start (.empty "en")).parse
        ⟨"\x7b% trans with \x7b(k): 'Bob'\x7d %\x7dHi %name%\x7b% endtrans %\x7d", none⟩).1 =
          .ok (.trans tag) ∧
      ¬ tag.KeepsWritten (.empty "en") [("k", .string "%name%")] := by
  have hread : (onlyTag? ((start (.empty "en")).parse
      ⟨"\x7b% trans with \x7b(k): 'Bob'\x7d %\x7dHi %name%\x7b% endtrans %\x7d", none⟩).1).any
        (fun tag => tag.boundTo? (.empty "en") [("k", .string "%name%")] "%name%" ==
          some ("Bob", "")) = true := by
    decide +kernel
  obtain ⟨tag, hparse, htest⟩ := eq_ok_of_any_onlyTag hread
  refine ⟨tag, hparse, fun hkeeps => ?_⟩
  rw [beq_iff_eq] at htest
  unfold TransTag.boundTo? at htest
  split at htest
  case h_2 => cases htest
  case h_1 own hvars =>
    split at htest
    case h_2 => cases htest
    case h_1 members request hmembers hrequest =>
      split at htest
      case h_2 => cases htest
      case h_1 value passed hkey hpassed =>
        obtain ⟨hvalue, rfl⟩ := Prod.mk.inj (Option.some.inj htest)
        have hkept := hkeeps own members request "%name%" value hvars hmembers hrequest hkey
        rw [hpassed, hvalue] at hkept
        exact absurd hkept (by decide)

end Template

end TemplateMessages

import Mathlib.Data.List.Nodup
import Mathlib.Data.List.Sort
import TemplateMessages.Gettext.Substitution
import TemplateMessages.OrderedMap

/-!
# What substitution means

The substitution of tokens is given by rules that read the text from the left: the
longest token that starts the text gives way to its value and the reading goes on
behind it, and a character that no token starts at stands for itself.  The first of
the tokens in falling order of their bytes that starts the text is the longest one in
characters, so the pass over the text gives the one result that the rules derive.
Since two tokens of one length that start the same text are one, the order of the
tokens does not count.
-/

namespace TemplateMessages.Gettext

/-- A token that is not empty starts the text. -/
def Starts (text : List Char) (binding : Binding) : Prop :=
  binding.1 ≠ [] ∧ binding.1 <+: text

instance (text : List Char) (binding : Binding) : Decidable (Starts text binding) :=
  inferInstanceAs (Decidable (_ ∧ _))

/-- No token that starts the text is longer than that of the binding. -/
structure IsLongest (bindings : List Binding) (text : List Char) (binding : Binding) : Prop where
  mem : binding ∈ bindings
  starts : Starts text binding
  le : ∀ other ∈ bindings, Starts text other → other.1.length ≤ binding.1.length

variable {bindings : List Binding} {text : List Char}

/-! ## The longest token -/

/-- Of two tokens that start a text, one that is not longer starts the other. -/
theorem Starts.eq_of_length_eq {first second : Binding} (hfirst : Starts text first)
    (hsecond : Starts text second) (hlength : first.1.length = second.1.length) :
    first.1 = second.1 :=
  (List.prefix_of_prefix_length_le hfirst.2 hsecond.2 hlength.le).eq_of_length hlength

/-- Where no token has two values there is one binding with the longest token. -/
theorem IsLongest.unique (hkeys : (bindings.map Prod.fst).Nodup) {first second : Binding}
    (hfirst : IsLongest bindings text first) (hsecond : IsLongest bindings text second) :
    first = second := by
  have hlength : first.1.length = second.1.length :=
    Nat.le_antisymm (hsecond.le _ hfirst.mem hfirst.starts) (hfirst.le _ hsecond.mem hsecond.starts)
  exact List.inj_on_of_nodup_map hkeys hfirst.mem hsecond.mem
    (hfirst.starts.eq_of_length_eq hsecond.starts hlength)

/-! ## The first token in falling order of bytes -/

/-- The token of the second binding has no more bytes. -/
def NoMoreBytes (first second : Binding) : Prop :=
  byteLength second.1 ≤ byteLength first.1

instance : DecidableRel NoMoreBytes :=
  fun first second => inferInstanceAs (Decidable (byteLength second.1 ≤ byteLength first.1))

instance : Std.Total NoMoreBytes :=
  ⟨fun first second => Nat.le_total (byteLength second.1) (byteLength first.1)⟩

instance : IsTrans Binding NoMoreBytes :=
  ⟨fun _ _ _ hfirst hsecond => Nat.le_trans hsecond hfirst⟩

theorem insertByBytes_eq (binding : Binding) (bindings : List Binding) :
    insertByBytes binding bindings = bindings.orderedInsert NoMoreBytes binding := by
  induction bindings with
  | nil => rfl
  | cons first rest ih =>
      rw [insertByBytes, ih, List.orderedInsert_cons]
      rfl

theorem byBytes_eq (bindings : List Binding) :
    byBytes bindings =
      (bindings.filter fun binding => !binding.1.isEmpty).insertionSort NoMoreBytes := by
  have hinsert : insertByBytes = List.orderedInsert NoMoreBytes :=
    funext fun binding => funext (insertByBytes_eq binding)
  rw [byBytes, hinsert]
  rfl

theorem mem_byBytes {binding : Binding} :
    binding ∈ byBytes bindings ↔ binding ∈ bindings ∧ binding.1 ≠ [] := by
  simp [byBytes_eq]

theorem pairwise_byBytes (bindings : List Binding) : (byBytes bindings).Pairwise NoMoreBytes := by
  rw [byBytes_eq]
  exact List.pairwise_insertionSort NoMoreBytes _

theorem byteLength_append (first second : List Char) :
    byteLength (first ++ second) = byteLength first + byteLength second := by
  induction first with
  | nil => exact (Nat.zero_add _).symm
  | cons c first ih => rw [List.cons_append, byteLength, byteLength, ih, Nat.add_assoc]

/-- Of two tokens that start a text, the one with more characters has more bytes. -/
theorem byteLength_lt {first second : List Char} (hfirst : first <+: text) (hsecond : second <+: text)
    (hlength : first.length < second.length) : byteLength first < byteLength second := by
  obtain ⟨more, rfl⟩ := List.prefix_of_prefix_length_le hfirst hsecond hlength.le
  obtain ⟨c, rest, rfl⟩ : ∃ c rest, more = c :: rest := by
    apply List.exists_cons_of_ne_nil
    rintro rfl
    simp at hlength
  have hpos := Char.utf8Size_pos c
  rw [byteLength_append, byteLength]
  omega

/-- The first token that starts the text, in falling order of bytes, is the longest in characters. -/
theorem isLongest_of_starting? {binding : Binding}
    (hfound : starting? (byBytes bindings) text = some binding) :
    IsLongest bindings text binding := by
  obtain ⟨hfits, before, after, hsplit, hbefore⟩ := List.find?_eq_some_iff_append.mp hfound
  obtain ⟨hmem, hne⟩ := mem_byBytes.mp (List.mem_of_find?_eq_some hfound)
  have hstarts : Starts text binding := ⟨hne, List.isPrefixOf_iff_prefix.mp hfits⟩
  refine ⟨hmem, hstarts, fun other hother hbegins => Nat.le_of_not_lt fun hlonger => ?_⟩
  -- A longer token has more bytes, so it stands in front, where no token starts the text.
  have hbytes := byteLength_lt hstarts.2 hbegins.2 hlonger
  have hsorted := pairwise_byBytes bindings
  rw [hsplit, List.pairwise_append, List.pairwise_cons] at hsorted
  have hplace := mem_byBytes.mpr ⟨hother, hbegins.1⟩
  rw [hsplit, List.mem_append, List.mem_cons] at hplace
  rcases hplace with hfront | rfl | hback
  · have hnone := hbefore other hfront
    rw [List.isPrefixOf_iff_prefix.mpr hbegins.2] at hnone
    cases hnone
  · exact lt_irrefl _ hlonger
  · exact absurd (hsorted.2.1.1 other hback) (Nat.not_le_of_lt hbytes)

theorem starting?_eq_none_iff :
    starting? (byBytes bindings) text = none ↔ ∀ binding ∈ bindings, ¬ Starts text binding := by
  rw [starting?, List.find?_eq_none]
  constructor
  · intro hnone binding hmem hstarts
    exact hnone binding (mem_byBytes.mpr ⟨hmem, hstarts.1⟩)
      (List.isPrefixOf_iff_prefix.mpr hstarts.2)
  · intro hnone binding hmem hfits
    obtain ⟨hmem, hne⟩ := mem_byBytes.mp hmem
    exact hnone binding hmem ⟨hne, List.isPrefixOf_iff_prefix.mp hfits⟩

theorem starting?_eq_some_iff (hkeys : (bindings.map Prod.fst).Nodup) {binding : Binding} :
    starting? (byBytes bindings) text = some binding ↔ IsLongest bindings text binding := by
  refine ⟨isLongest_of_starting?, fun hlongest => ?_⟩
  cases hfound : starting? (byBytes bindings) text with
  | none => exact absurd hlongest.starts (starting?_eq_none_iff.mp hfound _ hlongest.mem)
  | some found => rw [(isLongest_of_starting? hfound).unique hkeys hlongest]

/-! ## The pass over the text -/

/-- The rules of substitution. -/
inductive Replaces (bindings : List Binding) : List Char → List Char → Prop
  | nil : Replaces bindings [] []
  | token {key value rest result : List Char} :
      IsLongest bindings (key ++ rest) (key, value) →
      Replaces bindings rest result → Replaces bindings (key ++ rest) (value ++ result)
  | char {c : Char} {rest result : List Char} :
      (∀ binding ∈ bindings, ¬ Starts (c :: rest) binding) →
      Replaces bindings rest result → Replaces bindings (c :: rest) (c :: result)

/-- The characters that belong to a token are passed over. -/
theorem substituteFrom_eq_drop (bindings : List Binding) (skip : Nat) (text : List Char) :
    substituteFrom bindings skip text = substituteFrom bindings 0 (text.drop skip) := by
  induction text generalizing skip with
  | nil => rw [List.drop_nil, substituteFrom, substituteFrom]
  | cons c rest ih =>
      cases skip with
      | zero => rfl
      | succ skip => exact ih skip

/-- The pass puts the value of the token that is found and goes on behind the token. -/
theorem substituteFrom_of_starting? {key value rest : List Char} (hne : key ≠ [])
    (hfound : starting? bindings (key ++ rest) = some (key, value)) :
    substituteFrom bindings 0 (key ++ rest) = value ++ substituteFrom bindings 0 rest := by
  obtain ⟨c, tail, rfl⟩ := List.exists_cons_of_ne_nil hne
  rw [List.cons_append] at hfound ⊢
  rw [substituteFrom]
  simp only [hfound]
  rw [substituteFrom_eq_drop, List.length_cons, Nat.add_sub_cancel, List.drop_left]

theorem substituteFrom_of_starting?_eq_none {c : Char} {rest : List Char}
    (hnone : starting? bindings (c :: rest) = none) :
    substituteFrom bindings 0 (c :: rest) = c :: substituteFrom bindings 0 rest := by
  rw [substituteFrom]
  simp only [hnone]

/-- What the pass gives is derived.  The induction is on the length of the text, since a token takes
any number of characters. -/
theorem replaces_substituteFrom (bindings : List Binding) (text : List Char) :
    Replaces bindings text (substituteFrom (byBytes bindings) 0 text) := by
  induction hlength : text.length using Nat.strong_induction_on generalizing text with
  | _ length ih =>
      subst hlength
      cases text with
      | nil => exact .nil
      | cons c rest =>
          cases hfound : starting? (byBytes bindings) (c :: rest) with
          | none =>
              rw [substituteFrom_of_starting?_eq_none hfound]
              exact .char (starting?_eq_none_iff.mp hfound) (ih _ (Nat.lt_succ_self _) _ rfl)
          | some binding =>
              obtain ⟨key, value⟩ := binding
              have hkey := isLongest_of_starting? hfound
              obtain ⟨hne, more, hmore⟩ := hkey.starts
              rw [← hmore] at hfound hkey ⊢
              rw [substituteFrom_of_starting? hne hfound]
              refine .token hkey (ih _ ?_ _ rfl)
              rw [← hmore, List.length_append]
              exact Nat.lt_add_of_pos_left (List.length_pos_iff.mpr hne)

/-- What is derived is what the pass gives. -/
theorem Replaces.eq_substituteFrom (hkeys : (bindings.map Prod.fst).Nodup) {result : List Char}
    (hresult : Replaces bindings text result) :
    result = substituteFrom (byBytes bindings) 0 text := by
  induction hresult with
  | nil => rw [substituteFrom]
  | token hlongest _ ih =>
      rw [substituteFrom_of_starting? hlongest.starts.1 ((starting?_eq_some_iff hkeys).mpr hlongest),
        ih]
  | char hnone _ ih =>
      rw [substituteFrom_of_starting?_eq_none (starting?_eq_none_iff.mpr hnone), ih]

/-- The rules ask which bindings there are and not where they stand. -/
theorem Replaces.of_mem_iff {others : List Binding}
    (hsame : ∀ binding, binding ∈ others ↔ binding ∈ bindings) {result : List Char}
    (hresult : Replaces bindings text result) : Replaces others text result := by
  induction hresult with
  | nil => exact .nil
  | token hlongest _ ih =>
      obtain ⟨hmem, hstarts, hle⟩ := hlongest
      exact .token ⟨(hsame _).mpr hmem, hstarts, fun other hother => hle other ((hsame _).mp hother)⟩ ih
  | char hnone _ ih =>
      exact .char (fun binding hmem => hnone binding ((hsame binding).mp hmem)) ih

/-! ## The bindings of a map -/

/-- The bindings of a map of texts. -/
def bindingsOf (map : OrderedMap String String) : List Binding :=
  map.entries.map fun entry => (entry.1.toList, entry.2.toList)

theorem nodup_bindingsOf (map : OrderedMap String String) :
    ((bindingsOf map).map Prod.fst).Nodup := by
  have hkeys : (bindingsOf map).map Prod.fst = map.keys.map String.toList := by
    rw [bindingsOf, List.map_map, OrderedMap.keys, Assoc.keys, List.map_map]
    rfl
  rw [hkeys]
  exact map.nodup.map fun _ _ => String.toList_inj.mp

theorem substitute_eq_iff {map : OrderedMap String String} {text result : String} :
    substitute map.entries text = result ↔
      Replaces (bindingsOf map) text.toList result.toList := by
  have hpass : (substitute map.entries text).toList =
      substituteFrom (byBytes (bindingsOf map)) 0 text.toList := String.toList_ofList
  constructor
  · rintro rfl
    rw [hpass]
    exact replaces_substituteFrom _ _
  · intro hresult
    exact String.toList_inj.mp (hpass.trans (hresult.eq_substituteFrom (nodup_bindingsOf map)).symm)

/-- Substitution gives for every text the one result that the rules derive: the longest token that
starts what is left gives way to its value, and the reading goes on behind it.  The order of the
tokens does not count. -/
theorem substitute_by_rules (map : OrderedMap String String) :
    (∀ text result, substitute map.entries text = result ↔
      Replaces (bindingsOf map) text.toList result.toList) ∧
    ∀ other : OrderedMap String String, other.entries.Perm map.entries →
      ∀ text, substitute other.entries text = substitute map.entries text := by
  refine ⟨fun _ _ => substitute_eq_iff, fun other hperm text => ?_⟩
  have hsame : ∀ binding, binding ∈ bindingsOf other ↔ binding ∈ bindingsOf map :=
    fun _ => (hperm.map _).mem_iff
  exact substitute_eq_iff.mpr ((substitute_eq_iff.mp rfl).of_mem_iff hsame)

/-- Two tokens of which one starts the other. -/
def nestedTokens : OrderedMap String String := ⟨[("%a%", "1"), ("%a%b%", "%a%")], by decide⟩

/-- The tokens in the other order give the same, and what is put in is not looked at again. -/
theorem substitute_nestedTokens :
    ∃ other : OrderedMap String String, other.entries.Perm nestedTokens.entries ∧
      other.keys = ["%a%b%", "%a%"] ∧
      substitute other.entries "%a%b%a%" = "%a%a%" := by
  have hperm : List.Perm [("%a%b%", "%a%"), ("%a%", "1")] nestedTokens.entries :=
    List.Perm.swap _ _ _
  refine ⟨⟨_, (hperm.map Prod.fst).nodup_iff.mpr nestedTokens.nodup⟩, hperm, rfl, ?_⟩
  rw [(substitute_by_rules nestedTokens).2 _ hperm]
  decide +kernel

end TemplateMessages.Gettext

import TemplateMessages.Proofs.TagParts

/-!
# Reading trans tags

A trans tag is read exactly when the tokens behind its name derive it and, with a
count, its text splits into two forms; and then the tag holds what is written.  The
reader of the sections puts each trimmed text where its kind is still free, so the
sections are of different kinds, and which of them comes first is forgotten.
-/

namespace TemplateMessages.Template

open Grammar

namespace Node

/-! ## The texts of sections -/

namespace Sections

theorem get?_put (sections : Sections) (tag other : Section) (text : String) :
    (sections.put tag text).get? other = if other = tag then some text else sections.get? other := by
  cases tag <;> cases other <;> rfl

/-- A text leaves the sections of other kinds free. -/
theorem free_put {sections : Sections} {tag : Section} {written : List (Section × String)}
    (hnew : tag ∉ written.map Prod.fst) (hfree : ∀ entry ∈ written, sections.get? entry.1 = none)
    (text : String) : ∀ entry ∈ written, (sections.put tag text).get? entry.1 = none := by
  intro entry hentry
  have hne : entry.1 ≠ tag := by
    rintro rfl
    exact hnew (List.mem_map_of_mem hentry)
  rw [get?_put, if_neg hne, hfree entry hentry]

/-- The texts of sections put in, each trimmed. -/
def putTrimmed (sections : Sections) (written : List (Section × String)) : Sections :=
  written.foldl (fun sections entry => sections.put entry.1 (Text.trim entry.2)) sections

/-- Sections of different kinds that are all free leave each text where it belongs. -/
theorem get?_putTrimmed {written : List (Section × String)} (hnodup : (written.map Prod.fst).Nodup)
    {sections : Sections} (hfree : ∀ entry ∈ written, sections.get? entry.1 = none) (tag : Section)
    (found : String) :
    (sections.putTrimmed written).get? tag = some found ↔
      sections.get? tag = some found ∨ ∃ text, (tag, text) ∈ written ∧ Text.trim text = found := by
  induction written generalizing sections with
  | nil => simp [putTrimmed]
  | cons entry rest ih =>
      obtain ⟨first, text⟩ := entry
      obtain ⟨hnew, hnodup⟩ := List.nodup_cons.mp hnodup
      obtain ⟨hfirst, hrest⟩ := List.forall_mem_cons.mp hfree
      rw [putTrimmed, List.foldl_cons]
      refine (ih hnodup (free_put hnew hrest _)).trans ?_
      rw [get?_put]
      by_cases hsame : tag = first
      · subst hsame
        rw [if_pos rfl, Option.some.injEq, hfirst]
        simp only [List.mem_cons, Prod.mk.injEq, true_and, or_and_right, exists_or, exists_eq_left,
          reduceCtorEq, false_or]
      · simp only [List.mem_cons, Prod.mk.injEq, hsame, false_and, false_or, if_false]

end Sections

variable {blocks : List BlockTag} {line bound : Nat} {stream rest : TokenStream}

theorem kind_of_sectionAt? {tag : Section} (htag : sectionAt? stream = some tag) :
    stream.current.kind = .name tag.name := by
  unfold sectionAt? at htag
  split at htag
  case h_1 hname =>
    obtain rfl : Section.notes = tag := Option.some.inj htag
    exact Token.name?_eq_some_iff.mp hname
  case h_2 hname =>
    obtain rfl : Section.context = tag := Option.some.inj htag
    exact Token.name?_eq_some_iff.mp hname
  case h_3 => cases htag

theorem sectionAt?_prepend_cons (rest : TokenStream) (tag : Section) (line : Nat)
    (tokens : List Token) :
    sectionAt? (rest.prepend (⟨.name tag.name, line⟩ :: tokens)) = some tag := by
  cases tag <;> rfl

/-- The sections of a tag with the opener of the first one put in front, which has been passed with
the message. -/
theorem exists_of_readSections {sections result : Sections}
    (hread : readSections blocks line sections bound stream = .ok (result, rest)) (first : Nat) :
    ∃ parts written last,
      stream.prepend [⟨.blockStart, first⟩] = rest.prepend (parts ++ [⟨.blockStart, last⟩]) ∧
        Grammar.Sections parts written ∧ (written.map Prod.fst).Nodup ∧
        (∀ entry ∈ written, sections.get? entry.1 = none) ∧ result = sections.putTrimmed written ∧
        rest.current.kind = .name "endtrans" := by
  induction bound generalizing stream sections first with
  | zero => simp [readSections] at hread
  | succ bound ih =>
      rw [readSections] at hread
      split at hread
      case isTrue hend =>
        obtain ⟨rfl, rfl⟩ := Prod.mk.inj (Except.ok.inj hread)
        exact ⟨[], [], first, rfl, .nil, List.nodup_nil, by simp, rfl, Token.isName_iff.mp hend⟩
      case isFalse =>
        split at hread
        case h_1 => cases hread
        case h_2 tag htag =>
          obtain ⟨nameLine, next, rfl⟩ := TokenStream.exists_front (kind_of_sectionAt? htag) nofun
          split at hread
          case isTrue => cases hread
          case isFalse hfree =>
            obtain ⟨⟨_, inside⟩, hclosed, hinside⟩ := bind_eq_ok.mp hread
            obtain ⟨closed, hnext⟩ :=
              TokenStream.exists_of_expect_blockEnd (reading_eq_ok.mp hclosed)
            obtain rfl : next = inside.prepend [⟨.blockEnd, closed⟩] := hnext
            obtain ⟨⟨nodes, behind⟩, hnodes, hbehind⟩ := bind_eq_ok.mp hinside
            dsimp only at hbehind
            split at hbehind
            case h_1 text htext =>
              obtain ⟨tokens, opened, rfl, hliteral⟩ := exists_of_readNodes_literal hnodes htext
              obtain ⟨parts, written, last, hsplit, hparts, hnodup, hrest, rfl, hend⟩ :=
                ih hbehind opened
              have hunset : sections.get? tag = none := by simpa using hfree
              have hapart : ∀ entry ∈ written, entry.1 ≠ tag ∧ sections.get? entry.1 = none := by
                intro entry hentry
                have hnone := hrest entry hentry
                rw [Sections.get?_put] at hnone
                split at hnone
                case isTrue => cases hnone
                case isFalse hne => exact ⟨hne, hnone⟩
              refine ⟨⟨.blockStart, first⟩ :: ⟨.name tag.name, nameLine⟩ :: ⟨.blockEnd, closed⟩ ::
                (tokens ++ parts), (tag, text) :: written, last, ?_, .cons hliteral hparts,
                List.nodup_cons.mpr ⟨?_, hnodup⟩, List.forall_mem_cons.mpr ⟨hunset, ?_⟩, rfl, hend⟩
              · rw [TokenStream.prepend_append behind tokens, hsplit]
                simp [TokenStream.prepend]
              · intro hmem
                obtain ⟨entry, hentry, heq⟩ := List.mem_map.mp hmem
                exact (hapart entry hentry).1 heq
              · exact fun entry hentry => (hapart entry hentry).2
            case h_2 => cases hbehind

/-- Behind the opener of the first section, or of the end, stands the name of a block that ends a
part. -/
theorem exists_opener {parts : List Token} {written : List (Section × String)}
    (hparts : Grammar.Sections parts written) {rest : TokenStream}
    (hend : rest.current.kind = .name "endtrans") (last : Nat) :
    ∃ opened others, parts ++ [⟨.blockStart, last⟩] = ⟨.blockStart, opened⟩ :: others ∧
      ∃ word ∈ partEnds, (rest.prepend others).current.kind = .name word := by
  cases hparts with
  | nil => exact ⟨last, [], rfl, "endtrans", by decide, hend⟩
  | @cons _ _ tag => exact ⟨_, _, rfl, tag.name, by cases tag <;> decide, rfl⟩

/-- A section that is free is read with its literal, and the reader goes on behind it. -/
theorem readSections_section {sections : Sections} {tag : Section} {inside : TokenStream} {node : Node}
    {text : String} (hunset : sections.get? tag = none) (htext : node.literal? = some text)
    (hnode : readNodes blocks true bound inside = .ok ([node], rest)) (nameLine closed : Nat) :
    readSections blocks line sections (bound + 1)
        (inside.prepend [⟨.name tag.name, nameLine⟩, ⟨.blockEnd, closed⟩]) =
      readSections blocks line (sections.put tag (Text.trim text)) bound rest := by
  have hother : (inside.prepend [⟨.name tag.name, nameLine⟩, ⟨.blockEnd, closed⟩]).current.isName
      "endtrans" = false := by cases tag <;> rfl
  have hfree : (sections.get? tag).isSome = false := by rw [hunset, Option.isSome_none]
  have hliteral : ∀ textLine, (ofNodes [node] textLine).literal? = some text := fun _ => htext
  rw [readSections, if_neg (Bool.eq_false_iff.mp hother), sectionAt?_prepend_cons]
  simp only [hfree, Bool.false_eq_true, if_false, TokenStream.advance_prepend_cons,
    TokenStream.expect_prepend_blockEnd]
  show (readNodes blocks true bound inside >>= _) = _
  rw [hnode, ok_bind]
  simp only [hliteral]

theorem readSections_prepend {parts : List Token} {written : List (Section × String)}
    (hparts : Grammar.Sections parts written) (hnodup : (written.map Prod.fst).Nodup)
    {sections : Sections} (hfree : ∀ entry ∈ written, sections.get? entry.1 = none)
    (hend : rest.current.kind = .name "endtrans") (last : Nat)
    (hbound : written.length + 2 ≤ bound) :
    readSections blocks line sections bound
        (rest.prepend (parts ++ [⟨.blockStart, last⟩])).advance =
      .ok (sections.putTrimmed written, rest) := by
  induction hparts generalizing sections bound with
  | nil =>
      obtain ⟨bound, rfl⟩ : ∃ smaller, bound = smaller + 1 := ⟨bound - 1, by omega⟩
      rw [readSections]
      exact if_pos (Token.isName_iff.mpr hend)
  | @cons tokens parts tag text written opened nameLine closed hliteral hparts ih =>
      rw [List.length_cons] at hbound
      obtain ⟨bound, rfl⟩ : ∃ smaller, bound = smaller + 1 := ⟨bound - 1, by omega⟩
      obtain ⟨hnew, hnodup⟩ := List.nodup_cons.mp hnodup
      obtain ⟨hunset, hfree⟩ := List.forall_mem_cons.mp hfree
      obtain ⟨next, others, hnext, word, hword, hkind⟩ := exists_opener hparts hend last
      have hput := Sections.free_put hnew hfree (Text.trim text)
      have hrest := ih hnodup hput (show written.length + 2 ≤ bound by omega)
      obtain ⟨node, htext, hnode⟩ := exists_readNodes_literal blocks hliteral hword hkind next
        (show 2 ≤ bound by omega)
      have hstream : (rest.prepend (⟨.blockStart, opened⟩ :: ⟨.name tag.name, nameLine⟩ ::
          ⟨.blockEnd, closed⟩ :: (tokens ++ parts) ++ [⟨.blockStart, last⟩])).advance =
            ((rest.prepend others).prepend (tokens ++ [⟨.blockStart, next⟩])).prepend
              [⟨.name tag.name, nameLine⟩, ⟨.blockEnd, closed⟩] := by
        simp [TokenStream.prepend, TokenStream.advance, hnext]
      rw [hnext, TokenStream.advance_prepend_cons] at hrest
      rw [hstream, readSections_section hunset htext hnode, hrest]
      rfl

/-! ## The tag -/

theorem messageTexts_false {text message : String} {plural : Option String} :
    messageTexts text false = .ok (message, plural) ↔
      message = Text.collapseBlanks text ∧ plural = none := by
  simp [messageTexts, eq_comm]

theorem messageTexts_true {text message : String} {plural : Option String} :
    messageTexts text true = .ok (message, plural) ↔
      ∃ singular several, Plural.split text = .ok (singular, several) ∧
        message = Text.collapseBlanks singular ∧ plural = some (Text.collapseBlanks several) := by
  constructor
  · intro htexts
    obtain ⟨⟨singular, several⟩, hsplit, htexts⟩ := bind_eq_ok.mp htexts
    obtain ⟨rfl, rfl⟩ := Prod.mk.inj (Except.ok.inj htexts)
    exact ⟨singular, several, mapError_eq_ok.mp hsplit, rfl, rfl⟩
  · rintro ⟨singular, several, hsplit, rfl, rfl⟩
    rw [messageTexts, if_pos rfl, hsplit]
    rfl

/-- The tag of what is written, as the reader puts it together. -/
theorem makes_iff {written : WrittenTag} (hnodup : (written.sections.map Prod.fst).Nodup)
    {tag : TransTag} :
    written.Makes line tag ↔
      messageTexts written.text written.count.isSome = .ok (tag.body, tag.plural) ∧
        tag = ⟨tag.body, tag.plural, written.domain, written.count, written.vars,
          (Sections.putTrimmed ⟨none, none⟩ written.sections).notes,
          (Sections.putTrimmed ⟨none, none⟩ written.sections).context, line⟩ := by
  have hput : ∀ (kind : Section) (found : String),
      (Sections.putTrimmed ⟨none, none⟩ written.sections).get? kind = some found ↔
        ∃ text, (kind, text) ∈ written.sections ∧ Text.trim text = found := by
    intro kind found
    have hnone : (⟨none, none⟩ : Sections).get? kind = none := by cases kind <;> rfl
    rw [Sections.get?_putTrimmed hnodup (fun entry _ => by cases entry.1 <;> rfl), hnone]
    simp only [reduceCtorEq, false_or]
  constructor
  · intro hmakes
    refine ⟨?_, ?_⟩
    · cases hcount : written.count with
      | none => exact messageTexts_false.mpr (hmakes.plain hcount)
      | some _ => exact messageTexts_true.mpr (hmakes.counted (by rw [hcount]; rfl))
    · have hnotes : tag.notes = (Sections.putTrimmed ⟨none, none⟩ written.sections).notes :=
        Option.ext fun found => (hmakes.notes found).trans (hput .notes found).symm
      have hcontext : tag.context = (Sections.putTrimmed ⟨none, none⟩ written.sections).context :=
        Option.ext fun found => (hmakes.context found).trans (hput .context found).symm
      rw [← hnotes, ← hcontext, ← hmakes.domain, ← hmakes.count, ← hmakes.vars, ← hmakes.line]
  · rintro ⟨htexts, htag⟩
    refine ⟨congrArg TransTag.count htag, congrArg TransTag.vars htag, congrArg TransTag.domain htag,
      ?_, ?_, ?_, ?_, congrArg TransTag.line htag⟩
    · intro hnone
      rw [hnone] at htexts
      exact messageTexts_false.mp htexts
    · intro hsome
      rw [hsome] at htexts
      exact messageTexts_true.mp htexts
    · intro notes
      rw [congrArg TransTag.notes htag]
      exact hput .notes notes
    · intro context
      rw [congrArg TransTag.context htag]
      exact hput .context context

theorem exists_messageTexts {text : String} {counted : Bool}
    (hforms : counted = true → ∃ forms, Plural.split text = .ok forms) :
    ∃ message plural, messageTexts text counted = .ok (message, plural) := by
  cases counted with
  | false => exact ⟨_, _, rfl⟩
  | true =>
      obtain ⟨⟨singular, several⟩, hsplit⟩ := hforms rfl
      exact ⟨_, _, messageTexts_true.mpr ⟨singular, several, hsplit, rfl, rfl⟩⟩

/-- What a tag is read to. -/
theorem exists_of_readTag_trans {node : Node}
    (hread : readTag blocks .trans line bound stream = .ok (node, rest)) :
    ∃ tokens written tag, stream = rest.prepend tokens ∧ Tag tokens written ∧
      written.Makes line tag ∧ node = .trans tag := by
  cases bound with
  | zero => simp [readTag] at hread
  | succ bound =>
      rw [readTag] at hread
      obtain ⟨⟨⟨count, vars, domain⟩, inside⟩, hclauses, hinside⟩ := bind_eq_ok.mp hread
      dsimp only at hinside
      obtain ⟨⟨nodes, behind⟩, hnodes, hbehind⟩ := bind_eq_ok.mp hinside
      dsimp only at hbehind
      split at hbehind
      case h_2 => cases hbehind
      case h_1 text htext =>
        obtain ⟨⟨sections, atEnd⟩, hsections, hafter⟩ := bind_eq_ok.mp hbehind
        obtain ⟨⟨_, after⟩, hclosed, hmessage⟩ := bind_eq_ok.mp hafter
        obtain ⟨⟨message, plural⟩, htexts, hnode⟩ := bind_eq_ok.mp hmessage
        obtain ⟨rfl, rfl⟩ := Prod.mk.inj (Except.ok.inj hnode)
        obtain ⟨counted, mapped, sourced, headEnd, rfl, hcounted, hmapped, hsourced⟩ :=
          exists_of_readClauses hclauses
        obtain ⟨body, opened, rfl, hliteral⟩ := exists_of_readNodes_literal hnodes htext
        obtain ⟨parts, written, last, hsplit, hparts, hnodup, -, rfl, hend⟩ :=
          exists_of_readSections hsections opened
        obtain ⟨nameLine, next, rfl⟩ := TokenStream.exists_front hend (by simp)
        obtain ⟨closed, hnext⟩ := TokenStream.exists_of_expect_blockEnd (reading_eq_ok.mp hclosed)
        obtain rfl : next = after.prepend [⟨.blockEnd, closed⟩] := hnext
        refine ⟨counted ++ mapped ++ sourced ++ ⟨.blockEnd, headEnd⟩ :: (body ++ parts ++
            [⟨.blockStart, last⟩, ⟨.name "endtrans", nameLine⟩, ⟨.blockEnd, closed⟩]),
          ⟨count, vars, domain, text, written⟩, _, ?_,
          .mk hcounted hmapped hsourced hliteral hparts hnodup, (makes_iff hnodup).mpr ⟨htexts, rfl⟩, rfl⟩
        rw [TokenStream.prepend_append behind body, hsplit]
        simp [TokenStream.prepend]

/-- What is written is read to the end of the tag; then the text of the message decides. -/
theorem readTag_trans_of_derives {tokens : List Token} {written : WrittenTag}
    (hderives : Tag tokens written) (rest : TokenStream) (hbound : tokens.length ≤ bound) :
    readTag blocks .trans line bound (rest.prepend tokens) =
      (messageTexts written.text written.count.isSome).map fun (message, plural) =>
        (.trans ⟨message, plural, written.domain, written.count, written.vars,
          (Sections.putTrimmed ⟨none, none⟩ written.sections).notes,
          (Sections.putTrimmed ⟨none, none⟩ written.sections).context, line⟩, rest) := by
  cases hderives with
  | @mk counted mapped sourced body parts count vars domain text sections headEnd last nameLine closed
      hcounted hmapped hsourced hliteral hparts hnodup =>
  have hlength := hparts.length_le
  simp only [List.length_append, List.length_cons, List.length_nil] at hbound
  obtain ⟨bound, rfl⟩ : ∃ smaller, bound = smaller + 1 := ⟨bound - 1, by omega⟩
  let atEnd := rest.prepend [⟨.name "endtrans", nameLine⟩, ⟨.blockEnd, closed⟩]
  have hatEnd : atEnd.current.kind = .name "endtrans" := rfl
  obtain ⟨opened, others, hopener, word, hword, hkind⟩ := exists_opener hparts hatEnd last
  have hsections : readSections blocks line ⟨none, none⟩ bound (atEnd.prepend others) =
      .ok (Sections.putTrimmed ⟨none, none⟩ sections, atEnd) := by
    rw [← TokenStream.advance_prepend_cons atEnd ⟨.blockStart, opened⟩, ← hopener]
    exact readSections_prepend hparts hnodup (fun entry _ => by cases entry.1 <;> rfl) hatEnd last
      (by omega)
  obtain ⟨node, htext, hnode⟩ := exists_readNodes_literal blocks hliteral hword hkind opened
    (show 2 ≤ bound by omega)
  have hstream : rest.prepend (body ++ parts ++ [⟨.blockStart, last⟩, ⟨.name "endtrans", nameLine⟩,
      ⟨.blockEnd, closed⟩]) = (atEnd.prepend others).prepend (body ++ [⟨.blockStart, opened⟩]) := by
    have hsplit : parts ++ [⟨.blockStart, last⟩, ⟨.name "endtrans", nameLine⟩, ⟨.blockEnd, closed⟩] =
        ⟨.blockStart, opened⟩ :: (others ++ [⟨.name "endtrans", nameLine⟩, ⟨.blockEnd, closed⟩]) := by
      rw [← List.cons_append, ← hopener, List.append_assoc]
      rfl
    rw [List.append_assoc, hsplit]
    simp [TokenStream.prepend, atEnd]
  have hclauses := readClauses_prepend hcounted hmapped hsourced rest headEnd
    (body ++ parts ++ [⟨.blockStart, last⟩, ⟨.name "endtrans", nameLine⟩, ⟨.blockEnd, closed⟩])
  have hliteral? : ∀ textLine, (ofNodes [node] textLine).literal? = some text := fun _ => htext
  rw [readTag, hclauses, ok_bind, hstream]
  dsimp only
  rw [hnode, ok_bind]
  dsimp only
  rw [hliteral?]
  dsimp only
  rw [hsections, ok_bind]
  dsimp only
  have hend : reading (atEnd.advance.expect .blockEnd) = .ok (⟨.blockEnd, closed⟩, rest) := rfl
  rw [hend, ok_bind]
  cases messageTexts text count.isSome <;> rfl

theorem readTag_trans_prepend {tokens : List Token} {written : WrittenTag} {tag : TransTag}
    (hderives : Tag tokens written) (hmakes : written.Makes line tag) (rest : TokenStream)
    (hbound : tokens.length ≤ bound) :
    readTag blocks .trans line bound (rest.prepend tokens) = .ok (.trans tag, rest) := by
  obtain ⟨htexts, htag⟩ := (makes_iff hderives.nodup_sections).mp hmakes
  rw [readTag_trans_of_derives hderives rest hbound, htexts, htag]
  rfl

/-- A trans tag is read behind its name exactly when the tokens there derive one and, with a count,
its text has two forms.  The tag then holds what is written, in whatever order its sections are
written, and the stream stands behind the tag.  No more turns of the readers are needed than there
are tokens. -/
theorem readTag_trans_iff (hbound : stream.ahead.length ≤ bound) :
    ((∃ node rest, readTag blocks .trans line bound stream = .ok (node, rest)) ↔
      ∃ (tokens : List Token) (rest : TokenStream) (written : WrittenTag),
        stream = rest.prepend tokens ∧ Tag tokens written ∧
          (written.count.isSome → ∃ forms, Plural.split written.text = .ok forms)) ∧
    (∀ node rest, readTag blocks .trans line bound stream = .ok (node, rest) ↔
      ∃ tokens written tag, stream = rest.prepend tokens ∧ Tag tokens written ∧
        written.Makes line tag ∧ node = .trans tag) ∧
    ∀ (written : WrittenTag) (sections : List (Section × String)) (tag : TransTag),
      written.sections.Perm sections → (written.Makes line tag ↔ WrittenTag.Makes
        ⟨written.count, written.vars, written.domain, written.text, sections⟩ line tag) := by
  have hread : ∀ node rest, readTag blocks .trans line bound stream = .ok (node, rest) ↔
      ∃ tokens written tag, stream = rest.prepend tokens ∧ Tag tokens written ∧
        written.Makes line tag ∧ node = .trans tag := by
    intro node rest
    refine ⟨exists_of_readTag_trans, ?_⟩
    rintro ⟨tokens, written, tag, rfl, hderives, hmakes, rfl⟩
    rw [TokenStream.length_ahead_prepend] at hbound
    exact readTag_trans_prepend hderives hmakes rest (Nat.le_of_add_right_le hbound)
  refine ⟨⟨?_, ?_⟩, hread, ?_⟩
  · rintro ⟨node, rest, hnode⟩
    obtain ⟨tokens, written, tag, hstream, hderives, hmakes, -⟩ := (hread node rest).mp hnode
    refine ⟨tokens, rest, written, hstream, hderives, fun hcount => ?_⟩
    obtain ⟨singular, plural, hsplit, -⟩ := hmakes.counted hcount
    exact ⟨_, hsplit⟩
  · rintro ⟨tokens, rest, written, hstream, hderives, hforms⟩
    obtain ⟨message, plural, htexts⟩ := exists_messageTexts hforms
    have hmakes : written.Makes line ⟨message, plural, written.domain, written.count, written.vars,
        _, _, line⟩ := (makes_iff hderives.nodup_sections).mpr ⟨htexts, rfl⟩
    exact ⟨_, rest, (hread _ rest).mpr ⟨tokens, written, _, hstream, hderives, hmakes, rfl⟩⟩
  · intro written sections tag hperm
    exact ⟨fun hmakes => hmakes.of_perm hperm, fun hmakes => hmakes.of_perm hperm.symm⟩

/-- The tokens behind the name in `{% trans count n from 'd' %}a|b  c{% notes %} x {% endtrans %}!`. -/
def countedTag : TokenStream :=
  ⟨[⟨.name "count", 1⟩, ⟨.name "n", 1⟩, ⟨.name "from", 1⟩, ⟨.str "d", 1⟩, ⟨.blockEnd, 1⟩,
    ⟨.text "a|b  c", 1⟩, ⟨.blockStart, 1⟩, ⟨.name "notes", 1⟩, ⟨.blockEnd, 1⟩, ⟨.text " x ", 1⟩,
    ⟨.blockStart, 1⟩, ⟨.name "endtrans", 1⟩, ⟨.blockEnd, 1⟩, ⟨.text "!", 1⟩], 1⟩

theorem makes_of_countedTag :
    countedTag.ahead.length ≤ 14 ∧
      ∃ tokens written, countedTag = TokenStream.prepend ⟨[⟨.text "!", 1⟩], 1⟩ tokens ∧
        Tag tokens written ∧ written.Makes 1
          ⟨"a", some "b c", some (.string "d"), some (.name "n"), none, some "x", none, 1⟩ := by
  have hbound : countedTag.ahead.length ≤ 14 := by decide
  have hread : readTag [] .trans 1 14 countedTag = .ok (.trans
      ⟨"a", some "b c", some (.string "d"), some (.name "n"), none, some "x", none, 1⟩,
      ⟨[⟨.text "!", 1⟩], 1⟩) := by rfl
  obtain ⟨tokens, written, tag, hstream, hderives, hmakes, htag⟩ :=
    ((readTag_trans_iff hbound).2.1 _ _).mp hread
  exact ⟨hbound, tokens, written, hstream, hderives, Node.trans.inj htag ▸ hmakes⟩

end Node

end TemplateMessages.Template

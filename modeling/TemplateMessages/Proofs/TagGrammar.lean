import TemplateMessages.Proofs.GrammarCompleteness
import TemplateMessages.Template.Node.Parser

/-!
# The grammar of trans tags

    tag      = ['count' expression] ['with' expression] ['from' expression] BLOCK_END
               literal section* BLOCK_START 'endtrans' BLOCK_END
    section  = BLOCK_START ('notes' | 'context') BLOCK_END literal
    literal  = TEXT | VAR_START expression VAR_END

The expression of a literal is a string or a number, and a tag has at most one
section of each kind.  A derivation is the list of tokens behind the name of the
tag, with what is written there: the expressions, the text of the message and the
texts of the sections, all as they stand.  What becomes of them in the tag is said
apart from the grammar.
-/

namespace TemplateMessages.Template

/-- What is written between the name of a trans tag and its end. -/
structure WrittenTag where
  count : Option Expr
  vars : Option Expr
  domain : Option Expr
  text : String
  sections : List (Section × String)

namespace Grammar

inductive Literal : List Token → String → Prop
  | text {data : String} {line : Nat} : Literal [⟨.text data, line⟩] data
  | string {tokens : List Token} {value : String} {bare : Bool} {opened closed : Nat} :
      Expression tokens (.string value) bare →
      Literal (⟨.varStart, opened⟩ :: (tokens ++ [⟨.varEnd, closed⟩])) value
  | number {tokens : List Token} {value : Number} {bare : Bool} {opened closed : Nat} :
      Expression tokens (.constant (.number value)) bare →
      Literal (⟨.varStart, opened⟩ :: (tokens ++ [⟨.varEnd, closed⟩])) value.text

inductive Clause (word : String) : List Token → Option Expr → Prop
  | absent : Clause word [] none
  | present {tokens : List Token} {expr : Expr} {bare : Bool} {line : Nat} :
      Expression tokens expr bare → Clause word (⟨.name word, line⟩ :: tokens) (some expr)

inductive Sections : List Token → List (Section × String) → Prop
  | nil : Sections [] []
  | cons {tokens rest : List Token} {tag : Section} {text : String}
      {sections : List (Section × String)} {opened line closed : Nat} :
      Literal tokens text → Sections rest sections →
      Sections (⟨.blockStart, opened⟩ :: ⟨.name tag.name, line⟩ :: ⟨.blockEnd, closed⟩ ::
        (tokens ++ rest)) ((tag, text) :: sections)

inductive Tag : List Token → WrittenTag → Prop
  | mk {counted mapped sourced body parts : List Token} {count vars domain : Option Expr}
      {text : String} {sections : List (Section × String)} {headEnd opened line closed : Nat} :
      Clause "count" counted count → Clause "with" mapped vars → Clause "from" sourced domain →
      Literal body text → Sections parts sections → (sections.map Prod.fst).Nodup →
      Tag (counted ++ mapped ++ sourced ++ ⟨.blockEnd, headEnd⟩ ::
          (body ++ parts ++ [⟨.blockStart, opened⟩, ⟨.name "endtrans", line⟩, ⟨.blockEnd, closed⟩]))
        ⟨count, vars, domain, text, sections⟩

end Grammar

/-- What a tag makes of what is written: runs of blanks are collapsed in its texts, a counted text
is split into its two forms, and the texts of the sections are trimmed, whichever comes first. -/
structure WrittenTag.Makes (written : WrittenTag) (line : Nat) (tag : TransTag) : Prop where
  count : tag.count = written.count
  vars : tag.vars = written.vars
  domain : tag.domain = written.domain
  plain : written.count = none →
    tag.body = Text.collapseBlanks written.text ∧ tag.plural = none
  counted : written.count.isSome → ∃ singular plural,
    Plural.split written.text = .ok (singular, plural) ∧
      tag.body = Text.collapseBlanks singular ∧ tag.plural = some (Text.collapseBlanks plural)
  notes : ∀ notes, tag.notes = some notes ↔
    ∃ text, (.notes, text) ∈ written.sections ∧ Text.trim text = notes
  context : ∀ context, tag.context = some context ↔
    ∃ text, (.context, text) ∈ written.sections ∧ Text.trim text = context
  line : tag.line = line

/-- The order of the sections does not matter. -/
theorem WrittenTag.Makes.of_perm {written : WrittenTag} {line : Nat} {tag : TransTag}
    {sections : List (Section × String)} (hmakes : written.Makes line tag)
    (hperm : written.sections.Perm sections) :
    WrittenTag.Makes ⟨written.count, written.vars, written.domain, written.text, sections⟩ line tag where
  count := hmakes.count
  vars := hmakes.vars
  domain := hmakes.domain
  plain := hmakes.plain
  counted := hmakes.counted
  notes := fun notes => by simp only [hmakes.notes, hperm.mem_iff]
  context := fun context => by simp only [hmakes.context, hperm.mem_iff]
  line := hmakes.line

namespace Grammar

/-- No two sections of a tag are of one kind. -/
theorem Tag.nodup_sections {tokens : List Token} {written : WrittenTag} (htag : Tag tokens written) :
    (written.sections.map Prod.fst).Nodup := by
  cases htag with
  | mk _ _ _ _ _ hnodup => exact hnodup

theorem Sections.length_le {parts : List Token} {sections : List (Section × String)}
    (hsections : Sections parts sections) : sections.length ≤ parts.length := by
  induction hsections with
  | nil => exact Nat.le_refl _
  | cons _ _ ih =>
      simp only [List.length_cons, List.length_append]
      omega

end Grammar

end TemplateMessages.Template

import TemplateMessages.Proofs.MatchingNodes
import TemplateMessages.Proofs.MatchingSources
import TemplateMessages.Proofs.ReindentedRules
import TemplateMessages.Proofs.TagLookup

/-!
# Reindented templates

A template is reindented when the texts between its tags are.  The trans tags that
are read of it have the same plurals, and with a count the same messages, or it is
refused with the same error.  Without a count a message may get other white space in
front: a block tag takes a line feed behind it along, and of a run of two characters
that starts with one a single character is left, which nothing collapses.  Nothing
that is extracted or looked up depends on that white space.
-/

namespace TemplateMessages.Template

open Text (Reindented Respaced Indents isIndent)

/-! ## What tags leave of a reindented text -/

theorem exists_dropLineFeed_indents {front : List Char} (hfront : Indents front)
    (text : List Char) :
    ∃ rest, dropLineFeed (front ++ text) = rest ++ text ∧ rest.isEmpty = false ∧
      ∀ c ∈ rest, isIndent c = true := by
  match front, hfront.many, hfront.indent with
  | c :: d :: rest, _, hindent =>
      by_cases hfeed : c = '\n'
      · subst hfeed
        exact ⟨d :: rest, rfl, rfl, (List.forall_mem_cons.mp hindent).2⟩
      · refine ⟨c :: d :: rest, ?_, rfl, hindent⟩
        unfold dropLineFeed
        split
        case h_1 hrest => exact absurd (List.cons.inj hrest).1 hfeed
        case h_2 => rfl

theorem dropLineFeed_respaced {run run' : List Char} (hrun : Reindented run run') :
    Respaced (dropLineFeed run) (dropLineFeed run') := by
  cases hrun with
  | nil => exact .refl []
  | @keep c text text' htext =>
      by_cases hfeed : c = '\n'
      · subst hfeed
        exact .of_reindented htext
      · have hkept : ∀ rest, dropLineFeed (c :: rest) = c :: rest := by
          intro rest
          unfold dropLineFeed
          split
          case h_1 hrest => exact absurd (List.cons.inj hrest).1 hfeed
          case h_2 => rfl
        rw [hkept, hkept]
        exact .of_reindented (.keep c htext)
  | @run front front' text text' hfront hfront' htext =>
      obtain ⟨rest, hrest, hempty, hindent⟩ := exists_dropLineFeed_indents hfront text
      obtain ⟨rest', hrest', hempty', hindent'⟩ := exists_dropLineFeed_indents hfront' text'
      rw [hrest, hrest']
      exact .intro hindent hindent' (hempty.trans hempty'.symm) htext

theorem trimmedFront_respaced {run run' : List Char} (hrun : Reindented run run')
    (before : Option SourceTag) :
    Respaced (trimmedFront before run) (trimmedFront before run') := by
  cases before with
  | none => exact .of_reindented hrun
  | some tag =>
      unfold trimmedFront
      dsimp only
      split
      case isTrue => exact .of_reindented (hrun.dropWhile fun _ => Text.isBlank_of_isIndent)
      case isFalse =>
        split
        case isTrue => exact .of_reindented hrun
        case isFalse => exact dropLineFeed_respaced hrun

/-- Texts are kept alike if they are alike once the tag in front has taken its part of them. -/
theorem textKinds_like {alike : List Char → List Char → Prop}
    (hempty : ∀ {text text'}, alike text text' → text.isEmpty = text'.isEmpty)
    (hstrip : ∀ {text text'}, alike text text' →
      alike (Text.stripEnd Text.isBlank text) (Text.stripEnd Text.isBlank text'))
    {before : Option SourceTag} {run run' : List Char}
    (hfront : alike (trimmedFront before run) (trimmedFront before run')) (next : Option SourceTag) :
    List.Forall₂ (TokenKind.Like fun data data' => alike data.toList data'.toList)
      (textKinds before run next) (textKinds before run' next) := by
  have hkept : alike (keptText before run next) (keptText before run' next) := by
    unfold keptText
    split
    case isTrue => exact hstrip hfront
    case isFalse => exact hfront
  have hnil : keptText before run next = [] ↔ keptText before run' next = [] := by
    rw [← List.isEmpty_iff, ← List.isEmpty_iff, hempty hkept]
  unfold textKinds
  by_cases hkeeps : keptText before run next = []
  · rw [if_pos hkeeps, if_pos (hnil.mp hkeeps)]
    exact .nil
  · rw [if_neg hkeeps, if_neg (mt hnil.mpr hkeeps)]
    refine .cons (.text ?_) .nil
    simpa using hkept

/-! ## Messages -/

/-- Texts that differ at most in the white space in front. -/
def SameBehindBlanks (text text' : String) : Prop :=
  Text.stripStart Text.isBlank text.toList = Text.stripStart Text.isBlank text'.toList

theorem SameBehindBlanks.trim_eq {text text' : String} (htext : SameBehindBlanks text text') :
    Text.trim text = Text.trim text' :=
  congrArg (fun rest => String.ofList (Text.stripEnd Text.isBlank rest)) htext

/-- Messages with the same plural and, with a count, the same text. -/
structure MessagesAgree (counted : Bool) (message message' : String × Option String) : Prop where
  text : SameBehindBlanks message.1 message'.1
  plural : message.2 = message'.2
  counted : counted = true → message.1 = message'.1

theorem MessagesAgree.of_eq {message message' : String × Option String} (hmessage : message = message')
    (counted : Bool) : MessagesAgree counted message message' := by
  subst hmessage
  exact ⟨rfl, rfl, fun _ => rfl⟩

theorem collapseBlanks_reindented {text text' : String}
    (htext : Reindented text.toList text'.toList) :
    Text.collapseBlanks text = Text.collapseBlanks text' :=
  congrArg String.ofList (htext.collapseFrom_eq .none)

/-- With a count the two alternatives are trimmed before they collapse. -/
theorem messageTexts_counted {text text' : String} (htext : Respaced text.toList text'.toList) :
    Matches TemplateError.Agrees Eq (Node.messageTexts text true) (Node.messageTexts text' true) := by
  have hsplit : Matches TemplateError.Agrees _ ((Plural.split text).mapError TemplateError.plural)
      ((Plural.split text').mapError TemplateError.plural) :=
    (Plural.split_respaced htext).mapError fun reason _ hreason => hreason ▸ .plural reason
  refine hsplit.bind fun forms forms' hforms => .ok ?_
  obtain ⟨singular, plural⟩ := forms
  obtain ⟨singular', plural'⟩ := forms'
  rw [collapseBlanks_reindented hforms.1, collapseBlanks_reindented hforms.2]

theorem messageTexts_respaced {text text' : String} (htext : Respaced text.toList text'.toList)
    (counted : Bool) :
    Matches TemplateError.Agrees (MessagesAgree counted) (Node.messageTexts text counted)
      (Node.messageTexts text' counted) := by
  cases counted with
  | true => exact (messageTexts_counted htext).imp fun _ _ hmessage => .of_eq hmessage true
  | false =>
      refine .ok ⟨?_, rfl, nofun⟩
      simpa [SameBehindBlanks, Text.collapseBlanks] using htext.stripStart_collapse_eq

theorem messageTexts_reindented {text text' : String} (htext : Reindented text.toList text'.toList)
    (counted : Bool) :
    Matches TemplateError.Agrees Eq (Node.messageTexts text counted)
      (Node.messageTexts text' counted) := by
  cases counted with
  | true => exact messageTexts_counted (.of_reindented htext)
  | false => exact .ok (by rw [collapseBlanks_reindented htext])

/-- The texts of sections are the same but for runs of indentation. -/
abbrev SameSection (text text' : Option String) : Prop :=
  Option.Rel (fun text text' => Reindented text.toList text'.toList) text text'

def respacing : Likeness where
  texts text text' := Respaced text.toList text'.toList
  messages := MessagesAgree
  sections text text' := Reindented text.toList text'.toList
  refl text := .refl text.toList
  matches_messageTexts := messageTexts_respaced
  trim htext := by simpa [Text.trim] using htext.strip fun _ => Text.isBlank_of_isIndent

def reindenting : Likeness where
  texts text text' := Reindented text.toList text'.toList
  messages _ := Eq
  sections text text' := Reindented text.toList text'.toList
  refl text := .refl text.toList
  matches_messageTexts := messageTexts_reindented
  trim htext := by simpa [Text.trim] using htext.strip fun _ => Text.isBlank_of_isIndent

/-! ## Templates -/

/-- The tags have the same plural and the same text to extract and to look up; their messages are
the same with a count, and otherwise but for white space in front. -/
structure TransTag.SameMessage (tag tag' : TransTag) : Prop where
  plural : tag.plural = tag'.plural
  counted : tag.count.isSome = true → tag.body = tag'.body
  body : SameBehindBlanks tag.body tag'.body
  extracted : Text.trim tag.body = Text.trim tag'.body
  lookedUp : Placeholder.unescape tag.body = Placeholder.unescape tag'.body
  domain : SameClause tag.domain tag'.domain
  count : SameClause tag.count tag'.count
  vars : SameClause tag.vars tag'.vars
  notes : SameSection tag.notes tag'.notes
  context : SameSection tag.context tag'.context

namespace TransTag.Like

variable {tag tag' : TransTag}

theorem sameMessage (htag : tag.Like respacing tag') : tag.SameMessage tag' where
  plural := htag.message.plural
  counted := htag.message.counted
  body := htag.message.text
  extracted := htag.message.text.trim_eq
  lookedUp := by rw [Placeholder.unescape, htag.message.text.trim_eq, ← Placeholder.unescape]
  domain := htag.domain
  count := htag.count
  vars := htag.vars
  notes := htag.notes
  context := htag.context

theorem sameMessage_and_body_eq (htag : tag.Like reindenting tag') :
    tag.SameMessage tag' ∧ tag.body = tag'.body := by
  have hmessage : (tag.body, tag.plural) = (tag'.body, tag'.plural) := htag.message
  have hrespaced : tag.Like respacing tag' := { htag with message := .of_eq hmessage _ }
  exact ⟨hrespaced.sameMessage, (Prod.mk.inj hmessage).1⟩

end TransTag.Like

/-- Sources with matching tokens are read as the same tags, or refused alike. -/
theorem Source.matches_read {like : Likeness} {code code' : String}
    (htokens : MatchesScan like.texts (tokenize code) (tokenize code')) (name : Option String)
    (tags : List BlockTag) :
    Matches TemplateError.Agrees
      (fun node node' => List.Forall₂ (TransTag.Like like) node.tags node'.tags)
      ((Source.mk code name).read tags) ((Source.mk code' name).read tags) := by
  unfold read
  dsimp only
  generalize tokenize code = found at htokens ⊢
  generalize tokenize code' = found' at htokens ⊢
  cases htokens with
  | error herror => exact .error ((TemplateError.Agrees.malformed herror).inTemplate name)
  | ok htokens =>
      exact (matches_parseNodes (TokenStream.like_ofTokens htokens) tags).mapError
        fun _ _ herror => herror.inTemplate name

/-- Reindented templates have the same messages, but for the white space in front of those without a
count, or they are refused with the same error.  The white space in front is the same as well where
each run is still a run behind the line feed that the tag takes along. -/
theorem Source.read_reindented (code code' : String) (name : Option String) (tags : List BlockTag) :
    (SameTags (fun _ => Reindented) none code.toList code'.toList →
      Matches TemplateError.Agrees
        (fun node node' => List.Forall₂ TransTag.SameMessage node.tags node'.tags)
        ((Source.mk code name).read tags) ((Source.mk code' name).read tags)) ∧
    (SameTags (fun before run run' =>
        Reindented (trimmedFront before run) (trimmedFront before run')) none
        code.toList code'.toList →
      Matches TemplateError.Agrees
        (fun node node' => List.Forall₂ (fun tag tag' => tag.SameMessage tag' ∧ tag.body = tag'.body)
          node.tags node'.tags)
        ((Source.mk code name).read tags) ((Source.mk code' name).read tags)) := by
  constructor
  · intro hsame
    have hkeeps : KeepsLike respacing.texts fun _ => Reindented := fun hrun =>
      textKinds_like Respaced.isEmpty_eq (fun hfront => hfront.stripEnd fun _ =>
        Text.isBlank_of_isIndent) (trimmedFront_respaced hrun _)
    refine (matches_read (hsame.matches_tokenize hkeeps) name tags).imp fun _ _ htags => ?_
    exact htags.imp fun _ _ => TransTag.Like.sameMessage
  · intro hsame
    have hkeeps : KeepsLike reindenting.texts fun before run run' =>
        Reindented (trimmedFront before run) (trimmedFront before run') := fun hrun =>
      textKinds_like Reindented.isEmpty_eq (fun hfront => hfront.stripEnd fun _ =>
        Text.isBlank_of_isIndent) hrun
    refine (matches_read (hsame.matches_tokenize hkeeps) name tags).imp fun _ _ htags => ?_
    exact htags.imp fun _ _ => TransTag.Like.sameMessage_and_body_eq

/-- What is related of two trees that are single trans tags. -/
theorem of_matches_trans {values : TransTag → TransTag → Prop} {tag tag' : TransTag}
    (hread : Matches TemplateError.Agrees
      (fun node node' : Node => List.Forall₂ values node.tags node'.tags)
      (Except.ok (Node.trans tag)) (Except.ok (Node.trans tag'))) :
    values tag tag' := by
  cases hread with
  | ok htags =>
      rw [Node.tags_trans, Node.tags_trans] at htags
      exact (List.forall₂_cons.mp htags).1

def plainOpening : SourceTag := ⟨.block, false, " trans ".toList, by decide⟩

def countedOpening : SourceTag := ⟨.block, false, " trans count n ".toList, by decide⟩

def transClosing : SourceTag := ⟨.block, false, " endtrans ".toList, by decide⟩

theorem transClosing_complete : transClosing.Complete :=
  unclosed_of_all (by decide)

/-- Two runs in the alternatives of a counted message, and the same message with other runs. -/
def days : String :=
  "\x7b% trans count n %\x7dOne  day|\n\tSeveral days\x7b% endtrans %\x7d"

def daysReindented : String :=
  "\x7b% trans count n %\x7dOne\n day|   Several days\x7b% endtrans %\x7d"

theorem Source.read_reindented_days :
    ∃ tag tag',
      SameTags (fun _ => Reindented) none days.toList daysReindented.toList ∧
      (Source.mk days none).read allTags = .ok (.trans tag) ∧
      (Source.mk daysReindented none).read allTags = .ok (.trans tag') ∧
      tag.body = "One day" ∧ tag.plural = some "Several days" ∧ tag.SameMessage tag' ∧
      tag.body = tag'.body := by
  have hbody : Reindented "One  day|\n\tSeveral days".toList "One\n day|   Several days".toList := by
    have hspaces : Reindented "  ".toList "\n ".toList :=
      .of_indents ⟨by decide, List.all_eq_true.mp (by decide)⟩
        ⟨by decide, List.all_eq_true.mp (by decide)⟩
    have htab : Reindented "\n\t".toList "   ".toList :=
      .of_indents ⟨by decide, List.all_eq_true.mp (by decide)⟩
        ⟨by decide, List.all_eq_true.mp (by decide)⟩
    exact (Reindented.refl "One".toList).append (hspaces.append
      ((Reindented.refl "day|".toList).append (htab.append (.refl "Several days".toList))))
  -- The tag takes nothing of either text along.
  have hfront : Reindented (trimmedFront (some countedOpening) "One  day|\n\tSeveral days".toList)
      (trimmedFront (some countedOpening) "One\n day|   Several days".toList) := hbody
  have hopening : countedOpening.Complete := unclosed_of_all (by decide)
  have hdays : days.toList = countedOpening.text ++
      ("One  day|\n\tSeveral days".toList ++ transClosing.text) := by decide +kernel
  have hdays' : daysReindented.toList = countedOpening.text ++
      ("One\n day|   Several days".toList ++ transClosing.text) := by decide +kernel
  have hsame : SameTags (fun _ => Reindented) none days.toList daysReindented.toList := by
    rw [hdays, hdays']
    exact .enclosed (fun _ => .nil) hopening transClosing_complete (by decide) (by decide) hbody
  have hsame' : SameTags (fun before run run' =>
      Reindented (trimmedFront before run) (trimmedFront before run')) none days.toList
      daysReindented.toList := by
    rw [hdays, hdays']
    exact .enclosed (fun _ => .refl _) hopening transClosing_complete (by decide) (by decide) hfront
  have hread : (onlyTag? ((Source.mk days none).read allTags)).any
      (fun tag => tag.body == "One day" && tag.plural == some "Several days") = true := by
    decide +kernel
  have hread' : (onlyTag? ((Source.mk daysReindented none).read allTags)).any
      (fun _ => true) = true := by
    decide +kernel
  obtain ⟨tag, htag, htexts⟩ := eq_ok_of_any_onlyTag hread
  obtain ⟨tag', htag', -⟩ := eq_ok_of_any_onlyTag hread'
  rw [Bool.and_eq_true, beq_iff_eq, beq_iff_eq] at htexts
  obtain ⟨hmessages, hbodies⟩ := read_reindented days daysReindented none allTags
  have hmessage := hmessages hsame
  have hbodies := hbodies hsame'
  rw [htag, htag'] at hmessage hbodies
  exact ⟨tag, tag', hsame, htag, htag', htexts.1, htexts.2, of_matches_trans hmessage,
    (of_matches_trans hbodies).2⟩

/-- A block tag takes the line feed of a run along, and of the run a single character is left. -/
theorem Source.read_reindented_feed :
    ∃ tag tag',
      SameTags (fun _ => Reindented) none "\x7b% trans %\x7d\n    Hello\x7b% endtrans %\x7d".toList
        "\x7b% trans %\x7d\n\tHello\x7b% endtrans %\x7d".toList ∧
      (Source.mk "\x7b% trans %\x7d\n    Hello\x7b% endtrans %\x7d" none).read allTags =
        .ok (.trans tag) ∧
      (Source.mk "\x7b% trans %\x7d\n\tHello\x7b% endtrans %\x7d" none).read allTags =
        .ok (.trans tag') ∧
      tag.count = none ∧ tag.body = " Hello" ∧ tag'.body = "\tHello" := by
  have hbody : Reindented "\n    Hello".toList "\n\tHello".toList := by
    have hrun : Reindented "\n    ".toList "\n\t".toList :=
      .of_indents ⟨by decide, List.all_eq_true.mp (by decide)⟩
        ⟨by decide, List.all_eq_true.mp (by decide)⟩
    exact hrun.append (.refl "Hello".toList)
  have hopening : plainOpening.Complete := unclosed_of_all (by decide)
  have hsame : SameTags (fun _ => Reindented) none
      "\x7b% trans %\x7d\n    Hello\x7b% endtrans %\x7d".toList
      "\x7b% trans %\x7d\n\tHello\x7b% endtrans %\x7d".toList := by
    rw [show "\x7b% trans %\x7d\n    Hello\x7b% endtrans %\x7d".toList =
        plainOpening.text ++ ("\n    Hello".toList ++ transClosing.text) by decide +kernel,
      show "\x7b% trans %\x7d\n\tHello\x7b% endtrans %\x7d".toList =
        plainOpening.text ++ ("\n\tHello".toList ++ transClosing.text) by decide +kernel]
    exact .enclosed (fun _ => .nil) hopening transClosing_complete (by decide) (by decide) hbody
  have hread : (onlyTag? ((Source.mk
      "\x7b% trans %\x7d\n    Hello\x7b% endtrans %\x7d" none).read allTags)).any
        (fun tag => tag.count.isNone && tag.body == " Hello") = true := by
    decide +kernel
  have hread' : (onlyTag? ((Source.mk
      "\x7b% trans %\x7d\n\tHello\x7b% endtrans %\x7d" none).read allTags)).any
        (fun tag => tag.body == "\tHello") = true := by
    decide +kernel
  obtain ⟨tag, htag, htest⟩ := eq_ok_of_any_onlyTag hread
  obtain ⟨tag', htag', htest'⟩ := eq_ok_of_any_onlyTag hread'
  rw [Bool.and_eq_true, Option.isNone_iff_eq_none, beq_iff_eq] at htest
  exact ⟨tag, tag', hsame, htag, htag', htest.1, htest.2, beq_iff_eq.mp htest'⟩

end TemplateMessages.Template

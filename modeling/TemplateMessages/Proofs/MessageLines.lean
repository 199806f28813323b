import TemplateMessages.Message
import TemplateMessages.Proofs.Positions
import TemplateMessages.Proofs.TokenLines
import TemplateMessages.Template.Source

/-!
# The lines of messages

The messages of a tree come in the order of the walk.  A reader makes a part of
the tree from the tokens that it passes, and the messages of the part have lines
of these tokens, in order.  Only a filter stands out: it takes the line of its
bar, which is behind its subject, yet it is met in front of the subject.  But a
filter that declares a message has a constant for its subject, which declares
none.
-/

namespace TemplateMessages.Template

namespace Expr

/-- The messages that are declared in an expression. -/
def messages (expr : Expr) : List Message :=
  expr.subterms.filterMap Message.ofExpr?

/-- The lines of these messages. -/
def messageLines (expr : Expr) : List Nat :=
  expr.messages.map (·.line)

theorem messages_eq (expr : Expr) :
    expr.messages = (Message.ofExpr? expr).toList ++ expr.parts.flatMap messages := by
  unfold messages
  rw [subterms_eq, List.filterMap_cons, List.filterMap_flatMap]
  cases Message.ofExpr? expr <;> rfl

theorem messageLines_eq (expr : Expr) :
    expr.messageLines =
      (Message.ofExpr? expr).toList.map (·.line) ++ expr.parts.flatMap messageLines := by
  unfold messageLines
  rw [messages_eq, List.map_append, List.map_flatMap]

/-- A constant declares nothing. -/
theorem messageLines_of_stringConstant? {expr : Expr} {text : String}
    (hconstant : expr.stringConstant? = some text) : expr.messageLines = [] := by
  rw [eq_string_of_stringConstant? hconstant]
  rfl

theorem messageLines_ofWord (word : String) : (ofWord word).messageLines = [] := by
  unfold ofWord
  split <;> rfl

theorem messageLines_map (entries : List (Expr × Expr)) :
    (Expr.map entries).messageLines =
      entries.flatMap fun entry => entry.1.messageLines ++ entry.2.messageLines := by
  rw [messageLines_eq, parts, List.flatMap_assoc]
  simp [Message.ofExpr?]

/-- A filter adds lines behind those of its subject. -/
theorem exists_messageLines_filter (subject : Expr) (word : String) (arguments : List (Argument Expr))
    (line : Nat) :
    ∃ own : List Nat, (own = [] ∨ own = [line]) ∧
      (filter subject word arguments line).messageLines =
        subject.messageLines ++ (own ++ arguments.flatMap fun argument => argument.value.messageLines) := by
  have hlines := messageLines_eq (filter subject word arguments line)
  rw [parts, List.flatMap_cons, List.flatMap_map] at hlines
  rw [hlines]
  cases hdeclared : Message.ofExpr? (filter subject word arguments line) with
  | none => exact ⟨[], .inl rfl, rfl⟩
  | some message =>
      rw [Message.ofExpr?] at hdeclared
      split at hdeclared
      case isTrue =>
        obtain ⟨text, htext, rfl⟩ := Option.map_eq_some_iff.mp hdeclared
        exact ⟨[line], .inr rfl, by rw [messageLines_of_stringConstant? htext]; rfl⟩
      case isFalse => cases hdeclared

end Expr

/-! ## Readers -/

/-- A reader that passes from one stream to another, with the lines of what it reads. -/
def Reads (stream rest : TokenStream) (lines : List Nat) : Prop :=
  stream.Ordered → rest.Ordered ∧ Ascends stream.current.line lines rest.current.line

namespace Reads

variable {stream middle rest : TokenStream} {lines others : List Nat}

theorem refl (stream : TokenStream) : Reads stream stream [] :=
  fun hordered => ⟨hordered, Nat.le_refl _⟩

theorem trans (hfirst : Reads stream middle lines) (hsecond : Reads middle rest others) :
    Reads stream rest (lines ++ others) := by
  intro hordered
  obtain ⟨hmiddle, hlines⟩ := hfirst hordered
  obtain ⟨hrest, hothers⟩ := hsecond hmiddle
  exact ⟨hrest, hlines.append hothers⟩

/-- What is read may be dropped. -/
theorem pass (hreads : Reads stream rest lines) : Reads stream rest [] :=
  fun hordered => (hreads hordered).imp_right Ascends.le

/-- Tokens in front of what is read. -/
theorem skip (hfirst : Reads stream middle []) (hsecond : Reads middle rest lines) :
    Reads stream rest lines :=
  hfirst.trans hsecond

/-- Tokens behind what is read. -/
theorem finish (hfirst : Reads stream middle lines) (hsecond : Reads middle rest []) :
    Reads stream rest lines := by
  have hreads := hfirst.trans hsecond
  rwa [List.append_nil] at hreads

theorem advance (stream : TokenStream) : Reads stream stream.advance [] := by
  intro hordered
  obtain ⟨ahead, endLine⟩ := stream
  cases ahead with
  | nil => exact ⟨hordered, Nat.le_refl _⟩
  | cons token others =>
      obtain ⟨-, hothers⟩ := hordered
      refine ⟨hothers.mono_left (Nat.zero_le _), ?_⟩
      cases others with
      | nil => exact hothers
      | cons other others => exact hothers.1

/-- The line on which a reader starts comes first. -/
theorem cons_line (hreads : Reads stream rest lines) :
    Reads stream rest (stream.current.line :: lines) := by
  intro hordered
  obtain ⟨hrest, hlines⟩ := hreads hordered
  exact ⟨hrest, Nat.le_refl _, hlines⟩

end Reads

/-- A token that is expected is passed. -/
theorem reads_of_expect {stream rest : TokenStream} {expected : TokenKind} {token : Token}
    (hexpect : stream.expect expected = .ok (token, rest)) : Reads stream rest [] := by
  unfold TokenStream.expect at hexpect
  dsimp only at hexpect
  split at hexpect
  case isTrue =>
    obtain rfl : stream.advance = rest := congrArg Prod.snd (Except.ok.inj hexpect)
    exact .advance stream
  case isFalse => cases hexpect

theorem reads_of_expectPunct {stream rest : TokenStream} {mark : Char}
    (hexpect : stream.expectPunct mark = .ok rest) : Reads stream rest [] := by
  obtain ⟨⟨token, after⟩, hfound, rfl⟩ := map_eq_ok.mp hexpect
  exact reads_of_expect hfound

theorem reads_of_expectName {stream rest : TokenStream} {name : String}
    (hexpect : stream.expectName = .ok (name, rest)) : Reads stream rest [] := by
  unfold TokenStream.expectName at hexpect
  dsimp only at hexpect
  split at hexpect
  case h_1 =>
    obtain rfl : stream.advance = rest := congrArg Prod.snd (Except.ok.inj hexpect)
    exact .advance stream
  case h_2 => cases hexpect

namespace Expr

/-- What the readers of expressions read, with a bound on their recursion. -/
structure ReadersReport (bound : Nat) : Prop where
  expression : ∀ {stream rest : TokenStream} {expr : Expr},
    readExpression bound stream = .ok (expr, rest) → Reads stream rest expr.messageLines
  filters : ∀ {stream rest : TokenStream} {subject expr : Expr},
    readFilters bound subject stream = .ok (expr, rest) →
      ∃ added, expr.messageLines = subject.messageLines ++ added ∧ Reads stream rest added
  primary : ∀ {stream rest : TokenStream} {expr : Expr},
    readPrimary bound stream = .ok (expr, rest) → Reads stream rest expr.messageLines
  items : ∀ {stream rest : TokenStream} {items : List Expr},
    readItems bound stream = .ok (items, rest) → Reads stream rest (items.flatMap messageLines)
  entries : ∀ {stream rest : TokenStream} {entries : List (Expr × Expr)},
    readEntries bound stream = .ok (entries, rest) →
      Reads stream rest (entries.flatMap fun entry => entry.1.messageLines ++ entry.2.messageLines)
  key : ∀ {stream rest : TokenStream} {key : Expr},
    readKey bound stream = .ok (key, rest) → Reads stream rest key.messageLines
  arguments : ∀ {stream rest : TokenStream} {arguments : List (Argument Expr)},
    readArguments bound stream = .ok (arguments, rest) →
      Reads stream rest (arguments.flatMap fun argument => argument.value.messageLines)
  argumentList : ∀ {stream rest : TokenStream} {arguments : List (Argument Expr)},
    readArgumentList bound stream = .ok (arguments, rest) →
      Reads stream rest (arguments.flatMap fun argument => argument.value.messageLines)

variable {bound : Nat}

/-- A reader that is given no depth reads nothing. -/
theorem ReadersReport.zero : ReadersReport 0 where
  expression := by simp [readExpression]
  filters := by simp [readFilters]
  primary := by simp [readPrimary]
  items := by simp [readItems]
  entries := by simp [readEntries]
  key := by simp [readKey]
  arguments := by simp [readArguments]
  argumentList := by simp [readArgumentList]

namespace ReadersReport

variable {stream rest : TokenStream}

theorem expression_succ (hreports : ReadersReport bound) {expr : Expr}
    (hread : readExpression (bound + 1) stream = .ok (expr, rest)) :
    Reads stream rest expr.messageLines := by
  obtain ⟨⟨subject, middle⟩, hsubject, hfilters⟩ := bind_eq_ok.mp hread
  obtain ⟨added, hlines, hadded⟩ := hreports.filters hfilters
  rw [hlines]
  exact (hreports.primary hsubject).trans hadded

theorem filters_succ (hreports : ReadersReport bound) {subject expr : Expr}
    (hread : readFilters (bound + 1) subject stream = .ok (expr, rest)) :
    ∃ added, expr.messageLines = subject.messageLines ++ added ∧ Reads stream rest added := by
  rw [readFilters] at hread
  split at hread
  case isTrue =>
    obtain ⟨⟨word, behind⟩, hword, hread⟩ := bind_eq_ok.mp hread
    obtain ⟨arguments, after, hvalues, hread⟩ : ∃ arguments after,
        Reads behind after (arguments.flatMap fun argument => argument.value.messageLines) ∧
        readFilters bound (.filter subject word arguments stream.current.line) after =
          .ok (expr, rest) := by
      dsimp only at hread
      split at hread
      case isTrue =>
        obtain ⟨⟨arguments, after⟩, harguments, hread⟩ := bind_eq_ok.mp hread
        exact ⟨arguments, after, (Reads.advance behind).skip (hreports.arguments harguments), hread⟩
      case isFalse => exact ⟨[], behind, .refl behind, hread⟩
    have hbehind := ((Reads.advance stream).skip (reads_of_expectName hword)).skip hvalues
    obtain ⟨added, hlines, hadded⟩ := hreports.filters hread
    obtain ⟨own, hown, hfilter⟩ :=
      exists_messageLines_filter subject word arguments stream.current.line
    have hfront : Reads stream after
        (own ++ arguments.flatMap fun argument => argument.value.messageLines) := by
      rcases hown with rfl | rfl
      · exact hbehind
      · exact hbehind.cons_line
    exact ⟨_, by rw [hlines, hfilter, List.append_assoc], hfront.trans hadded⟩
  case isFalse =>
    obtain ⟨rfl, rfl⟩ := Prod.mk.inj (Except.ok.inj hread)
    exact ⟨[], (List.append_nil _).symm, .refl stream⟩

theorem primary_succ (hreports : ReadersReport bound) {expr : Expr}
    (hread : readPrimary (bound + 1) stream = .ok (expr, rest)) :
    Reads stream rest expr.messageLines := by
  rw [readPrimary] at hread
  split at hread
  case h_1 word _ =>
    obtain ⟨rfl, rfl⟩ := Prod.mk.inj (Except.ok.inj hread)
    rw [messageLines_ofWord]
    exact .advance stream
  case h_2 value _ =>
    obtain ⟨rfl, rfl⟩ := Prod.mk.inj (Except.ok.inj hread)
    exact .advance stream
  case h_3 value _ =>
    obtain ⟨rfl, rfl⟩ := Prod.mk.inj (Except.ok.inj hread)
    exact .advance stream
  case h_4 =>
    obtain ⟨⟨items, after⟩, hitems, hread⟩ := bind_eq_ok.mp hread
    obtain ⟨rfl, rfl⟩ := Prod.mk.inj (Except.ok.inj hread)
    rw [messageLines_eq]
    exact (Reads.advance stream).skip (hreports.items hitems)
  case h_5 =>
    obtain ⟨⟨entries, after⟩, hentries, hread⟩ := bind_eq_ok.mp hread
    obtain ⟨rfl, rfl⟩ := Prod.mk.inj (Except.ok.inj hread)
    rw [messageLines_map]
    exact (Reads.advance stream).skip (hreports.entries hentries)
  case h_6 =>
    obtain ⟨⟨inner, after⟩, hinner, hread⟩ := bind_eq_ok.mp hread
    obtain ⟨last, hlast, hread⟩ := bind_eq_ok.mp hread
    obtain ⟨rfl, rfl⟩ := Prod.mk.inj (Except.ok.inj hread)
    exact ((Reads.advance stream).skip (hreports.expression hinner)).finish
      (reads_of_expectPunct hlast)
  case h_7 => cases hread

theorem items_succ (hreports : ReadersReport bound) {items : List Expr}
    (hread : readItems (bound + 1) stream = .ok (items, rest)) :
    Reads stream rest (items.flatMap messageLines) := by
  rw [readItems] at hread
  split at hread
  case isTrue =>
    obtain ⟨rfl, rfl⟩ := Prod.mk.inj (Except.ok.inj hread)
    exact .advance stream
  case isFalse =>
    obtain ⟨⟨item, after⟩, hitem, hread⟩ := bind_eq_ok.mp hread
    have hitem := hreports.expression hitem
    dsimp only at hread
    split at hread
    case isTrue =>
      obtain ⟨rfl, rfl⟩ := Prod.mk.inj (Except.ok.inj hread)
      rw [List.flatMap_singleton]
      exact hitem.finish (.advance after)
    case isFalse =>
      obtain ⟨next, hcomma, hread⟩ := bind_eq_ok.mp hread
      obtain ⟨⟨others, last⟩, hothers, hread⟩ := bind_eq_ok.mp hread
      obtain ⟨rfl, rfl⟩ := Prod.mk.inj (Except.ok.inj hread)
      rw [List.flatMap_cons]
      exact (hitem.finish (reads_of_expectPunct hcomma)).trans (hreports.items hothers)

theorem entries_succ (hreports : ReadersReport bound) {entries : List (Expr × Expr)}
    (hread : readEntries (bound + 1) stream = .ok (entries, rest)) :
    Reads stream rest
      (entries.flatMap fun entry => entry.1.messageLines ++ entry.2.messageLines) := by
  rw [readEntries] at hread
  split at hread
  case isTrue =>
    obtain ⟨rfl, rfl⟩ := Prod.mk.inj (Except.ok.inj hread)
    exact .advance stream
  case isFalse =>
    obtain ⟨⟨key, afterKey⟩, hkey, hread⟩ := bind_eq_ok.mp hread
    obtain ⟨afterColon, hcolon, hread⟩ := bind_eq_ok.mp hread
    obtain ⟨⟨value, after⟩, hvalue, hread⟩ := bind_eq_ok.mp hread
    have hentry := ((hreports.key hkey).finish (reads_of_expectPunct hcolon)).trans
      (hreports.expression hvalue)
    dsimp only at hread
    split at hread
    case isTrue =>
      obtain ⟨rfl, rfl⟩ := Prod.mk.inj (Except.ok.inj hread)
      rw [List.flatMap_singleton]
      exact hentry.finish (.advance after)
    case isFalse =>
      obtain ⟨next, hcomma, hread⟩ := bind_eq_ok.mp hread
      obtain ⟨⟨others, last⟩, hothers, hread⟩ := bind_eq_ok.mp hread
      obtain ⟨rfl, rfl⟩ := Prod.mk.inj (Except.ok.inj hread)
      rw [List.flatMap_cons]
      exact (hentry.finish (reads_of_expectPunct hcomma)).trans (hreports.entries hothers)

theorem key_succ (hreports : ReadersReport bound) {key : Expr}
    (hread : readKey (bound + 1) stream = .ok (key, rest)) :
    Reads stream rest key.messageLines := by
  rw [readKey] at hread
  split at hread
  case h_4 =>
    obtain ⟨⟨inner, after⟩, hinner, hread⟩ := bind_eq_ok.mp hread
    obtain ⟨last, hlast, hread⟩ := bind_eq_ok.mp hread
    obtain ⟨rfl, rfl⟩ := Prod.mk.inj (Except.ok.inj hread)
    exact ((Reads.advance stream).skip (hreports.expression hinner)).finish
      (reads_of_expectPunct hlast)
  case h_5 => cases hread
  all_goals
    obtain ⟨rfl, rfl⟩ := Prod.mk.inj (Except.ok.inj hread)
    exact .advance stream

theorem arguments_succ (hreports : ReadersReport bound) {arguments : List (Argument Expr)}
    (hread : readArguments (bound + 1) stream = .ok (arguments, rest)) :
    Reads stream rest (arguments.flatMap fun argument => argument.value.messageLines) := by
  rw [readArguments] at hread
  split at hread
  case isTrue =>
    obtain ⟨rfl, rfl⟩ := Prod.mk.inj (Except.ok.inj hread)
    exact .advance stream
  case isFalse => exact hreports.argumentList hread

theorem argumentList_succ (hreports : ReadersReport bound) {arguments : List (Argument Expr)}
    (hread : readArgumentList (bound + 1) stream = .ok (arguments, rest)) :
    Reads stream rest (arguments.flatMap fun argument => argument.value.messageLines) := by
  rw [readArgumentList] at hread
  obtain ⟨⟨value, after⟩, hvalue, hread⟩ := bind_eq_ok.mp hread
  have hlabel : ∀ named : Bool,
      Reads stream (if named then stream.advance.advance else stream) [] := by
    intro named
    cases named with
    | true => exact (Reads.advance stream).skip (.advance stream.advance)
    | false => exact .refl stream
  have hargument := (hlabel _).skip (hreports.expression hvalue)
  dsimp only at hread
  split at hread
  case isTrue =>
    obtain ⟨rfl, rfl⟩ := Prod.mk.inj (Except.ok.inj hread)
    rw [List.flatMap_singleton]
    exact hargument.finish (.advance after)
  case isFalse =>
    obtain ⟨next, hcomma, hread⟩ := bind_eq_ok.mp hread
    obtain ⟨⟨others, last⟩, hothers, hread⟩ := bind_eq_ok.mp hread
    obtain ⟨rfl, rfl⟩ := Prod.mk.inj (Except.ok.inj hread)
    rw [List.flatMap_cons]
    exact (hargument.finish (reads_of_expectPunct hcomma)).trans (hreports.argumentList hothers)

end ReadersReport

theorem readersReport (bound : Nat) : ReadersReport bound := by
  induction bound with
  | zero => exact .zero
  | succ bound ih =>
      exact {
        expression := ih.expression_succ
        filters := ih.filters_succ
        primary := ih.primary_succ
        items := ih.items_succ
        entries := ih.entries_succ
        key := ih.key_succ
        arguments := ih.arguments_succ
        argumentList := ih.argumentList_succ }

end Expr

theorem reads_of_parseExpression {stream rest : TokenStream} {expr : Expr}
    (hparse : parseExpression stream = .ok (expr, rest)) : Reads stream rest expr.messageLines :=
  (Expr.readersReport _).expression hparse

end TemplateMessages.Template

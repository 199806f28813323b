import TemplateMessages.Proofs.TokenLines

/-!
# The lines of a source

What is reported of a template stands on a line of it.  A line comes from a
token or from where the walk over the source has come, and in a tag that is not
closed from where it was opened; so the faults of the walk and of the steps
over its tokens are on lines of the source.  None of them names a template.
-/

namespace TemplateMessages.Template

/-! ## Results -/

section Results

variable {ε ε' α β : Type}

/-- A result whose error has the one property, or whose value has the other. -/
inductive Ensures (faulty : ε → Prop) (sound : α → Prop) : Except ε α → Prop
  | error {error : ε} (herror : faulty error) : Ensures faulty sound (.error error)
  | ok {value : α} (hvalue : sound value) : Ensures faulty sound (.ok value)

namespace Ensures

variable {faulty : ε → Prop} {sound : α → Prop} {result : Except ε α}

theorem bind {next : α → Except ε β} {settled : β → Prop} (hresult : Ensures faulty sound result)
    (hnext : ∀ value, sound value → Ensures faulty settled (next value)) :
    Ensures faulty settled (result >>= next) := by
  cases hresult with
  | error herror => exact .error herror
  | ok hvalue => exact hnext _ hvalue

theorem map {change : α → β} {settled : β → Prop} (hresult : Ensures faulty sound result)
    (hchange : ∀ value, sound value → settled (change value)) :
    Ensures faulty settled (result.map change) := by
  cases hresult with
  | error herror => exact .error herror
  | ok hvalue => exact .ok (hchange _ hvalue)

theorem mapError {change : ε → ε'} {refused : ε' → Prop} (hresult : Ensures faulty sound result)
    (hchange : ∀ error, faulty error → refused (change error)) :
    Ensures refused sound (result.mapError change) := by
  cases hresult with
  | error herror => exact .error (hchange _ herror)
  | ok hvalue => exact .ok hvalue

theorem of_error {error : ε} (hresult : Ensures faulty sound (.error error)) : faulty error := by
  cases hresult with
  | error herror => exact herror

theorem of_ok {value : α} (hresult : Ensures faulty sound (.ok value)) : sound value := by
  cases hresult with
  | ok hvalue => exact hvalue

end Ensures

end Results

variable {lines : Nat → Prop}

/-- An error on one of the lines, of a template that is not named yet. -/
structure SyntaxError.Within (lines : Nat → Prop) (error : SyntaxError) : Prop where
  line : lines error.line
  unnamed : error.template = none

theorem SyntaxError.within_onLine {line : Nat} (hline : lines line) (fault : Fault) :
    (onLine line fault).Within lines :=
  ⟨hline, rfl⟩

/-- An error that has no name yet gets that of its template, also when the template has none. -/
theorem SyntaxError.Within.inTemplate {error : SyntaxError} (herror : error.Within lines)
    (template : Option String) :
    lines (error.inTemplate template).line ∧ (error.inTemplate template).template = template := by
  cases template with
  | none => exact ⟨herror.line, herror.unnamed⟩
  | some name => exact ⟨herror.line, rfl⟩

/-! ## Streams -/

namespace TokenStream

/-- Every token of the stream is on one of the lines, and so is its end. -/
structure Within (lines : Nat → Prop) (stream : TokenStream) : Prop where
  ahead : ∀ token ∈ stream.ahead, lines token.line
  endLine : lines stream.endLine

variable {stream : TokenStream}

theorem Within.current (hstream : stream.Within lines) : lines stream.current.line := by
  obtain ⟨ahead, endLine⟩ := stream
  cases ahead with
  | nil => exact hstream.endLine
  | cons token others => exact hstream.ahead token List.mem_cons_self

theorem Within.advance (hstream : stream.Within lines) : stream.advance.Within lines where
  ahead := fun token htoken => hstream.ahead token (List.mem_of_mem_tail htoken)
  endLine := hstream.endLine

/-- A fault that is found where the stream stands. -/
theorem Within.refuse (hstream : stream.Within lines) (fault : Fault) :
    (SyntaxError.onLine stream.current.line fault).Within lines :=
  SyntaxError.within_onLine hstream.current fault

theorem Within.unexpected (hstream : stream.Within lines) : stream.unexpected.Within lines :=
  hstream.refuse _

theorem Within.expect (hstream : stream.Within lines) (expected : TokenKind) :
    Ensures (SyntaxError.Within lines) (fun read => read.2.Within lines) (stream.expect expected) := by
  unfold TokenStream.expect
  dsimp only
  split
  case isTrue => exact .ok hstream.advance
  case isFalse => exact .error (hstream.refuse _)

theorem Within.expectPunct (hstream : stream.Within lines) (mark : Char) :
    Ensures (SyntaxError.Within lines) (Within lines) (stream.expectPunct mark) :=
  (hstream.expect (.punct mark)).map fun _ hrest => hrest

theorem Within.expectName (hstream : stream.Within lines) :
    Ensures (SyntaxError.Within lines) (fun read => read.2.Within lines) stream.expectName := by
  unfold TokenStream.expectName
  dsimp only
  split
  case h_1 => exact .ok hstream.advance
  case h_2 => exact .error (hstream.refuse _)

/-- Without a token that tells the end, a stream ends on the line of its last token, or on the
first line. -/
theorem within_ofTokens {tokens : List Token} (htokens : ∀ token ∈ tokens, lines token.line)
    (hfirst : lines 1) : (ofTokens tokens).Within lines := by
  unfold ofTokens
  split
  case h_1 last hlast =>
    refine ⟨fun token htoken => htokens token ?_, htokens last (List.mem_of_getLast? hlast)⟩
    dsimp only at htoken
    split at htoken
    case isTrue => exact List.dropLast_subset tokens htoken
    case isFalse => exact htoken
  case h_2 => exact ⟨nofun, hfirst⟩

end TokenStream

/-! ## The walk over a source -/

/-- The tag in which the walk stands starts on one of the lines. -/
def Place.Within (lines : Nat → Prop) : Place → Prop
  | .text _ => True
  | .tag _ start => lines start

theorem Place.within_text (trim : Bool) : (Place.text trim).Within lines :=
  trivial

/-- The lines from one on that a text behind it reaches. -/
def Reaches (line : Nat) (text : List Char) (other : Nat) : Prop :=
  line ≤ other ∧ other ≤ line + countLineFeeds text

theorem Reaches.cons {line other : Nat} {c : Char} {rest : List Char}
    (hreaches : Reaches (if c = '\n' then line + 1 else line) rest other) :
    Reaches line (c :: rest) other := by
  refine ⟨Nat.le_trans ?_ hreaches.1, ?_⟩
  · split <;> omega
  · rw [← next_add_countLineFeeds]
    exact hreaches.2

section Walk

variable {c : Char} {rest : List Char} {line : Nat}

/-- A walk that stands in the text between the tags is at fault where it stands, or behind it. -/
theorem ensures_scan_text (hline : lines line)
    (hnext : ∀ {place : Place} {skip : Nat}, place.Within lines →
      Ensures (SyntaxError.Within lines) (fun _ => True)
        (scan place skip (if c = '\n' then line + 1 else line) rest)) (trim : Bool) :
    Ensures (SyntaxError.Within lines) (fun _ => True) (scan (.text trim) 0 line (c :: rest)) := by
  rw [scan]
  dsimp only
  split
  case h_1 kind after _ =>
    split
    case isTrue =>
      split
      case h_1 => exact .error (SyntaxError.within_onLine hline _)
      case h_2 => exact hnext (Place.within_text _)
    case isFalse =>
      have hplace : (Place.tag kind line).Within lines := hline
      exact (hnext hplace).map fun _ _ => trivial
  case h_2 => exact (hnext (Place.within_text _)).map fun _ _ => trivial

/-- A walk that stands in a tag. -/
theorem ensures_scan_tag (hline : lines line)
    (hnext : ∀ {place : Place} {skip : Nat}, place.Within lines →
      Ensures (SyntaxError.Within lines) (fun _ => True)
        (scan place skip (if c = '\n' then line + 1 else line) rest))
    {kind : TagKind} {start : Nat} (hstart : lines start) :
    Ensures (SyntaxError.Within lines) (fun _ => True) (scan (.tag kind start) 0 line (c :: rest)) := by
  have hplace : (Place.tag kind start).Within lines := hstart
  rw [scan]
  dsimp only
  split
  case isTrue => exact hnext hplace
  case isFalse =>
    split
    case isTrue => exact (hnext (Place.within_text _)).map fun _ _ => trivial
    case isFalse =>
      split
      case isTrue => exact (hnext (Place.within_text _)).map fun _ _ => trivial
      case isFalse =>
        split
        case h_1 => exact (hnext hplace).map fun _ _ => trivial
        case h_2 => exact .error (SyntaxError.within_onLine hline _)

end Walk

/-- The walk is at fault only on lines that the text reaches, or where the tag around it starts. -/
theorem ensures_scan {place : Place} {skip line : Nat} {text : List Char}
    (hplace : place.Within lines) (hlines : ∀ other, Reaches line text other → lines other) :
    Ensures (SyntaxError.Within lines) (fun _ => True) (scan place skip line text) := by
  induction text generalizing place skip line with
  | nil =>
      cases place with
      | text trim => exact .ok trivial
      | tag kind start => exact .error (SyntaxError.within_onLine hplace _)
  | cons c rest ih =>
      have hline : lines line := hlines line ⟨Nat.le_refl _, Nat.le_add_right _ _⟩
      have hnext : ∀ {place : Place} {skip : Nat}, place.Within lines →
          Ensures (SyntaxError.Within lines) (fun _ => True)
            (scan place skip (if c = '\n' then line + 1 else line) rest) :=
        fun hplace => ih hplace fun other hother => hlines other hother.cons
      cases skip with
      | succ skip =>
          rw [scan]
          exact hnext hplace
      | zero =>
          cases place with
          | text trim => exact ensures_scan_text hline hnext trim
          | tag kind start => exact ensures_scan_tag hline hnext hplace

/-- A source is at fault on a line of it, and every token is on one. -/
theorem ensures_tokenize {source : String}
    (hlines : ∀ line, Reaches 1 source.toList line → lines line) :
    Ensures (SyntaxError.Within lines) (fun tokens => ∀ token ∈ tokens, lines token.line)
      (tokenize source) := by
  have hfaults : Ensures (SyntaxError.Within lines) (fun _ => True) (tokenize source) :=
    ensures_scan (Place.within_text false) hlines
  cases htokens : tokenize source with
  | error error =>
      rw [htokens] at hfaults
      exact .error hfaults.of_error
  | ok tokens =>
      have hascends := scanAscends _ htokens
      rw [List.take_zero] at hascends
      refine .ok fun token htoken => hlines token.line ?_
      exact hascends.bounds (List.mem_map_of_mem htoken)

end TemplateMessages.Template

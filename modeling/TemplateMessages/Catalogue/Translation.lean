import TemplateMessages.OrderedMap

/-!
# Translations

An entry of a catalogue is told by its key, a context and a text, and collects
what all its occurrences say: the first plural, the notes of all, and where
they stand.
-/

namespace TemplateMessages.Catalogue

structure TranslationKey where
  context : Option String
  original : String
deriving DecidableEq, Repr

/-- The identifier of an entry: its text, behind its context and U+0004. -/
def TranslationKey.id (key : TranslationKey) : String :=
  match key.context with
  | some context => context ++ "\u0004" ++ key.original
  | none => key.original

/-- Where a message stands. -/
structure Reference where
  path : String
  line : Nat
deriving DecidableEq, Repr

def Reference.text (reference : Reference) : String :=
  reference.path ++ ":" ++ toString reference.line

/-- References in the order in which they were found, none of them twice. -/
structure References where
  toList : List Reference
  nodup : toList.Nodup

namespace References

def empty : References := ⟨[], List.nodup_nil⟩

def insert (references : References) (reference : Reference) : References :=
  if h : reference ∈ references.toList then references
  else
    ⟨references.toList ++ [reference], by
      refine List.nodup_append.mpr ⟨references.nodup, by simp, ?_⟩
      intro a ha b hb
      simp only [List.mem_singleton] at hb
      subst hb
      exact fun hab => h (hab ▸ ha)⟩

def insertAll (references : References) (others : List Reference) : References :=
  others.foldl insert references

def ofList (references : List Reference) : References :=
  empty.insertAll references

theorem ext_toList {left right : References} (h : left.toList = right.toList) : left = right := by
  cases left
  cases right
  cases h
  rfl

theorem toList_insert (references : References) (reference : Reference) :
    (references.insert reference).toList =
      if reference ∈ references.toList then references.toList
      else references.toList ++ [reference] := by
  unfold insert
  split <;> simp_all

end References

/-- What the occurrences of an entry say. -/
structure Details where
  plural : Option String
  comments : List String
  references : References

namespace Details

def empty : Details := ⟨none, [], .empty⟩

instance : Inhabited Details := ⟨empty⟩

/-- Both together: the first plural counts, comments follow each other, and a
reference that is there is not added again. -/
def merge (first second : Details) : Details :=
  ⟨first.plural.or second.plural, first.comments ++ second.comments,
    first.references.insertAll second.references.toList⟩

/-- What a catalogue holds for a key when `added` joins what is there. -/
def join (added : Details) : Option Details → Details
  | some present => present.merge added
  | none => added

/-- Equal up to the order of references. -/
def sameAs (left right : Details) : Bool :=
  left.plural == right.plural && left.comments == right.comments &&
    left.references.toList.length == right.references.toList.length &&
    left.references.toList.all fun reference => right.references.toList.contains reference

end Details

/-- An entry with its key. -/
structure Translation where
  key : TranslationKey
  details : Details

end TemplateMessages.Catalogue

import Mathlib.Data.List.Lex
import TemplateMessages.Template.Node

/-!
# Positions in a template

A template is a tree of nodes and of the expressions in them.  A position tells
where a part of it stands: it lists which part to enter at each turn on the way
from the whole down.  Of two parts the one whose position comes first in
lexicographic order is met first, so the walk over a template is the list of all
its parts in the order of their positions, with no position twice.
-/

namespace TemplateMessages.Template

namespace Expr

/-- The expressions that an expression is made of, in the order in which they are visited. -/
def parts : Expr → List Expr
  | .constant _ => []
  | .name _ => []
  | .array items => items
  | .map entries => entries.flatMap fun entry => [entry.1, entry.2]
  | .filter subject _ arguments _ => subject :: arguments.map (·.value)
  | .merge left right => [left, right]

theorem sizeOf_lt_of_mem_parts {expr part : Expr} (hpart : part ∈ expr.parts) :
    sizeOf part < sizeOf expr := by
  cases expr with
  | constant value => simp [parts] at hpart
  | name word => simp [parts] at hpart
  | array items =>
      have : sizeOf part < sizeOf items := List.sizeOf_lt_of_mem hpart
      simp only [array.sizeOf_spec]
      omega
  | map entries =>
      obtain ⟨⟨key, value⟩, hentry, hpart⟩ := List.mem_flatMap.mp hpart
      have := List.sizeOf_lt_of_mem hentry
      simp only [List.mem_cons, List.not_mem_nil, or_false] at hpart
      simp only [map.sizeOf_spec, Prod.mk.sizeOf_spec] at this ⊢
      rcases hpart with rfl | rfl <;> omega
  | filter subject word arguments line =>
      simp only [filter.sizeOf_spec]
      rcases List.mem_cons.mp hpart with rfl | hpart
      · omega
      · obtain ⟨argument, hargument, rfl⟩ := List.mem_map.mp hpart
        have := List.sizeOf_lt_of_mem hargument
        have : sizeOf argument.value < sizeOf argument := by
          cases argument
          simp only [Argument.mk.sizeOf_spec]
          omega
        omega
  | merge left right =>
      simp only [parts, List.mem_cons, List.not_mem_nil, or_false] at hpart
      simp only [merge.sizeOf_spec]
      rcases hpart with rfl | rfl <;> omega

/-- What holds of an expression whenever it holds of its parts holds of every expression. -/
theorem induction_on_parts {motive : Expr → Prop}
    (hstep : ∀ expr, (∀ part ∈ expr.parts, motive part) → motive expr) (expr : Expr) :
    motive expr :=
  hstep expr fun part _hpart => induction_on_parts hstep part
termination_by sizeOf expr
decreasing_by exact sizeOf_lt_of_mem_parts _hpart

theorem itemSubterms_eq (items : List Expr) : itemSubterms items = items.flatMap subterms := by
  induction items with
  | nil => rfl
  | cons item rest ih => rw [itemSubterms, ih, List.flatMap_cons]

theorem entrySubterms_eq (entries : List (Expr × Expr)) :
    entrySubterms entries =
      (entries.flatMap fun entry => [entry.1, entry.2]).flatMap subterms := by
  induction entries with
  | nil => rfl
  | cons entry rest ih =>
      rw [entrySubterms, ih]
      simp

theorem argumentSubterms_eq (arguments : List (Argument Expr)) :
    argumentSubterms arguments = (arguments.map (·.value)).flatMap subterms := by
  induction arguments with
  | nil => rfl
  | cons argument rest ih => rw [argumentSubterms, ih, List.map_cons, List.flatMap_cons]

/-- An expression is listed in front of all that is in its parts. -/
theorem subterms_eq (expr : Expr) : expr.subterms = expr :: expr.parts.flatMap subterms := by
  cases expr with
  | constant value => rfl
  | name word => rfl
  | array items => rw [subterms, itemSubterms_eq, parts]
  | map entries => rw [subterms, entrySubterms_eq, parts]
  | filter subject word arguments line =>
      rw [subterms, argumentSubterms_eq, parts, List.flatMap_cons]
  | merge left right => simp [subterms, parts]

end Expr

/-- A node or an expression of a template. -/
inductive Part where
  | ofNode (node : Node)
  | ofExpr (expr : Expr)

/-- The way to a part: which of the parts to enter at each turn. -/
abbrev Position := List Nat

namespace Part

/-- The parts that a part is made of, in the order in which they are visited. -/
def parts : Part → List Part
  | .ofNode (.body nodes _) => nodes.map .ofNode
  | .ofNode node => node.expressions.map .ofExpr
  | .ofExpr expr => expr.parts.map .ofExpr

/-- The part at a position. -/
def at? : Part → Position → Option Part
  | part, [] => some part
  | part, step :: position => part.parts[step]?.bind fun inner => inner.at? position

@[simp]
theorem at?_nil (part : Part) : part.at? [] = some part := rfl

theorem at?_cons (part : Part) (step : Nat) (position : Position) :
    part.at? (step :: position) = part.parts[step]?.bind fun inner => inner.at? position := rfl

theorem at?_cons_eq_some {part found : Part} {step : Nat} {position : Position} :
    part.at? (step :: position) = some found ↔
      ∃ inner, part.parts[step]? = some inner ∧ inner.at? position = some found := by
  rw [at?_cons, Option.bind_eq_some_iff]

theorem sizeOf_lt_of_mem_map_ofExpr {exprs : List Expr} {part : Part} {bound : Nat}
    (hbound : ∀ expr ∈ exprs, sizeOf expr < bound) (hpart : part ∈ exprs.map ofExpr) :
    sizeOf part < 1 + bound := by
  obtain ⟨expr, hmem, rfl⟩ := List.mem_map.mp hpart
  have := hbound expr hmem
  simp only [ofExpr.sizeOf_spec]
  omega

theorem sizeOf_lt_of_mem_expressions {node : Node} {expr : Expr} (hexpr : expr ∈ node.expressions) :
    sizeOf expr < sizeOf node := by
  cases node with
  | trans tag =>
      obtain ⟨body, plural, domain, count, vars, notes, context, line⟩ := tag
      simp only [Node.expressions, TransTag.expressions, List.mem_append,
        Option.mem_toList] at hexpr
      rcases hexpr with (rfl | rfl) | rfl <;> simp <;> omega
  | _ => simp_all [Node.expressions] <;> omega

theorem sizeOf_lt_of_mem_parts {part inner : Part} (hinner : inner ∈ part.parts) :
    sizeOf inner < sizeOf part := by
  cases part with
  | ofExpr expr =>
      exact sizeOf_lt_of_mem_map_ofExpr (fun _ hmem => Expr.sizeOf_lt_of_mem_parts hmem) hinner
  | ofNode node =>
      cases node with
      | body nodes line =>
          obtain ⟨node, hmem, rfl⟩ := List.mem_map.mp hinner
          have := List.sizeOf_lt_of_mem hmem
          simp only [ofNode.sizeOf_spec, Node.body.sizeOf_spec]
          omega
      | _ =>
          exact sizeOf_lt_of_mem_map_ofExpr (fun _ hmem => sizeOf_lt_of_mem_expressions hmem) hinner

/-- What holds of a part whenever it holds of the parts it is made of holds of every part. -/
theorem induction_on_parts {motive : Part → Prop}
    (hstep : ∀ part, (∀ inner ∈ part.parts, motive inner) → motive part) (part : Part) :
    motive part :=
  hstep part fun inner _hinner => induction_on_parts hstep inner
termination_by sizeOf part
decreasing_by exact sizeOf_lt_of_mem_parts _hinner

/-! ## The walk -/

end Part

/-- The part that a step of a walk meets. -/
def Step.part? : Step → Option Part
  | .enter node => some (.ofNode node)
  | .visit expr => some (.ofExpr expr)
  | .leave => none

namespace Part

/-- A part and all that is in it, in the order of the walk. -/
def walk : Part → List Part
  | .ofNode node => node.walk.filterMap Step.part?
  | .ofExpr expr => expr.subterms.map .ofExpr

theorem filterMap_part?_visits (exprs : List Expr) :
    (Node.visits exprs).filterMap Step.part? = (exprs.map ofExpr).flatMap walk := by
  rw [Node.visits, List.filterMap_map]
  have hvisit : Step.part? ∘ Step.visit = some ∘ ofExpr := rfl
  rw [hvisit, List.filterMap_eq_map, List.map_flatMap, List.flatMap_map]
  simp only [walk]

theorem filterMap_part?_walkAll (nodes : List Node) :
    (Node.walkAll nodes).filterMap Step.part? = (nodes.map ofNode).flatMap walk := by
  induction nodes with
  | nil => rfl
  | cons node rest ih =>
      rw [Node.walkAll, List.filterMap_append, ih, List.map_cons, List.flatMap_cons, walk]

/-- The walk meets a part in front of all that is in its parts. -/
theorem walk_eq (part : Part) : part.walk = part :: part.parts.flatMap walk := by
  have hframe : ∀ (node : Node) (steps : List Step),
      (Step.enter node :: (steps ++ [Step.leave])).filterMap Step.part? =
        .ofNode node :: steps.filterMap Step.part? := by
    intro node steps
    simp [Step.part?]
  cases part with
  | ofExpr expr =>
      rw [walk, Expr.subterms_eq, List.map_cons, List.map_flatMap, parts, List.flatMap_map]
      rfl
  | ofNode node =>
      cases node with
      | text data line => rfl
      | body nodes line => rw [walk, Node.walk, hframe, filterMap_part?_walkAll, parts]
      | _ =>
          rw [walk, Node.walk, hframe, filterMap_part?_visits]
          rfl

end Part

/-! ## Listing all positions -/

/-- All positions of a part with what stands there, in ascending order. -/
structure Part.Listing (part : Part) (entries : List (Position × Part)) : Prop where
  ascending : (entries.map Prod.fst).Pairwise (· < ·)
  mem_iff : ∀ position found, (position, found) ∈ entries ↔ part.at? position = some found

/-- The same for a list of parts: a position starts with the number of one of them. -/
structure Listings (parts : List Part) (entries : List (Position × Part)) : Prop where
  ascending : (entries.map Prod.fst).Pairwise (· < ·)
  mem_iff : ∀ position found, (position, found) ∈ entries ↔
    ∃ step rest inner, position = step :: rest ∧ parts[step]? = some inner ∧
      inner.at? rest = some found

namespace Part

/-- A position among the other parts, with the first part in front of them. -/
def further (entry : Position × Part) : Position × Part :=
  (entry.1.modifyHead (· + 1), entry.2)

theorem Listing.cons {first : Part} {rest : List Part} {here others : List (Position × Part)}
    (hfirst : first.Listing here) (hrest : Listings rest others) :
    Listings (first :: rest) ((here.map fun entry => (0 :: entry.1, entry.2)) ++
      others.map further) where
  ascending := by
    have hcons : ∀ entry ∈ others, ∃ step position, entry.1 = step :: position := by
      rintro ⟨position, found⟩ hmem
      obtain ⟨step, rest, -, rfl, -⟩ := (hrest.mem_iff position found).mp hmem
      exact ⟨step, rest, rfl⟩
    rw [List.map_append, List.map_map, List.map_map, List.pairwise_append]
    have hhere := List.pairwise_map.mp hfirst.ascending
    have hothers := List.pairwise_map.mp hrest.ascending
    refine ⟨List.pairwise_map.mpr ?_, List.pairwise_map.mpr ?_, ?_⟩
    · exact hhere.imp fun hlt => List.cons_lt_cons_iff.mpr (.inr ⟨rfl, hlt⟩)
    · refine hothers.imp_of_mem fun hleft hright hlt => ?_
      obtain ⟨_, _, hleft⟩ := hcons _ hleft
      obtain ⟨_, _, hright⟩ := hcons _ hright
      simpa [further, hleft, hright, List.cons_lt_cons_iff] using hlt
    · intro left hleft right hright
      obtain ⟨entry, -, rfl⟩ := List.mem_map.mp hleft
      obtain ⟨other, hother, rfl⟩ := List.mem_map.mp hright
      obtain ⟨step, position, hposition⟩ := hcons other hother
      simp [further, hposition, List.cons_lt_cons_iff]
  mem_iff := by
    intro position found
    rw [List.mem_append, List.mem_map, List.mem_map]
    constructor
    · rintro (⟨⟨here, part⟩, hmem, heq⟩ | ⟨⟨other, part⟩, hmem, heq⟩)
      · obtain ⟨rfl, rfl⟩ := Prod.mk.inj heq
        exact ⟨0, here, first, rfl, rfl, (hfirst.mem_iff here part).mp hmem⟩
      · obtain ⟨step, rest, inner, rfl, hstep, hinner⟩ := (hrest.mem_iff other part).mp hmem
        obtain ⟨rfl, rfl⟩ := Prod.mk.inj heq
        exact ⟨step + 1, rest, inner, rfl, hstep, hinner⟩
    · rintro ⟨step, rest, inner, rfl, hstep, hinner⟩
      cases step with
      | zero =>
          obtain rfl : first = inner := Option.some.inj hstep
          exact .inl ⟨(rest, found), (hfirst.mem_iff rest found).mpr hinner, rfl⟩
      | succ step =>
          exact .inr ⟨(step :: rest, found),
            (hrest.mem_iff _ found).mpr ⟨step, rest, inner, rfl, hstep, hinner⟩, rfl⟩

/-- The walk lists what stands at all positions, in ascending order. -/
theorem exists_listing (part : Part) :
    ∃ entries, part.Listing entries ∧ entries.map Prod.snd = part.walk := by
  induction part using induction_on_parts with
  | hstep part ih =>
      have hparts : ∀ parts : List Part,
          (∀ inner ∈ parts, ∃ entries, inner.Listing entries ∧ entries.map Prod.snd = inner.walk) →
          ∃ entries, Listings parts entries ∧ entries.map Prod.snd = parts.flatMap walk := by
        intro parts hlisted
        induction parts with
        | nil => exact ⟨[], ⟨by simp, by simp⟩, rfl⟩
        | cons first rest ihrest =>
            obtain ⟨⟨here, hhere, hwalk⟩, hlisted⟩ := List.forall_mem_cons.mp hlisted
            obtain ⟨others, hothers, hwalks⟩ := ihrest hlisted
            refine ⟨_, hhere.cons hothers, ?_⟩
            rw [List.flatMap_cons, ← hwalk, ← hwalks]
            simp [further, Function.comp_def]
      obtain ⟨entries, hentries, hwalk⟩ := hparts part.parts ih
      refine ⟨([], part) :: entries, ⟨?_, ?_⟩, by rw [List.map_cons, hwalk, walk_eq]⟩
      · refine List.pairwise_cons.mpr ⟨?_, hentries.ascending⟩
        intro position hposition
        obtain ⟨⟨position, found⟩, hmem, rfl⟩ := List.mem_map.mp hposition
        obtain ⟨step, rest, -, rfl, -⟩ := (hentries.mem_iff position found).mp hmem
        exact List.nil_lt_cons step rest
      · intro position found
        cases position with
        | nil =>
            have hnone : ([], found) ∉ entries := by
              intro hmem
              obtain ⟨_, _, _, hnil, -⟩ := (hentries.mem_iff [] found).mp hmem
              cases hnil
            simp [hnone, eq_comm]
        | cons step position =>
            rw [List.mem_cons, hentries.mem_iff, at?_cons_eq_some]
            simp

end Part

end TemplateMessages.Template

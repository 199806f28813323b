import TemplateMessages.Proofs.SuppliedArguments

/-!
# Arguments that are repeated

A parameter of the filter may be supplied more than once: under its name twice, or
under its name and by position.  Then the last of its arguments is bound, while
`findArgument` answers with the first one that has the name.  So a message can be
collected for one domain and looked up in another.  An argument that supplies its
parameter alone is found and bound alike, whatever happens to the other
parameters.
-/

namespace TemplateMessages.Template

/-- The value of an argument, when it supplies the parameter. -/
def suppliedFor? (parameter : String) (supplied : Option String × Expr) : Option Expr :=
  if supplied.1 = some parameter then some supplied.2 else none

/-- The values that arguments supply for a parameter, in order. -/
def suppliers (parameter : String) (arguments : List (Argument Expr)) : List Expr :=
  (supplies 0 arguments).filterMap (suppliedFor? parameter)

theorem mem_suppliers_iff {parameter : String} {arguments : List (Argument Expr)} {expr : Expr} :
    expr ∈ suppliers parameter arguments ↔ (some parameter, expr) ∈ supplies 0 arguments := by
  unfold suppliers suppliedFor?
  rw [List.mem_filterMap]
  constructor
  · rintro ⟨⟨label, value⟩, hmem, hvalue⟩
    obtain ⟨hlabel, rfl⟩ : label = some parameter ∧ value = expr := by simpa using hvalue
    exact hlabel ▸ hmem
  · intro hmem
    exact ⟨_, hmem, if_pos rfl⟩

/-- The value that is bound is that of the last supplier. -/
theorem lastSupplied_eq_getLast? (parameter : String) (supplied : List (Option String × Expr)) :
    lastSupplied parameter supplied = (supplied.filterMap (suppliedFor? parameter)).getLast? := by
  induction supplied with
  | nil => rfl
  | cons first rest ih =>
      rw [lastSupplied, ih, List.filterMap_cons, suppliedFor?]
      split
      case isTrue => rw [List.getLast?_cons]; cases (rest.filterMap _).getLast? <;> rfl
      case isFalse => exact Option.or_none

/-- An argument is found for exactly the parameters that are supplied. -/
theorem findArgument_eq_none_iff {parameter : String} {arguments : List (Argument Expr)} :
    findArgument arguments parameter = none ↔ suppliers parameter arguments = [] := by
  constructor
  · intro hfind
    apply List.eq_nil_iff_forall_not_mem.mpr
    intro expr hmem
    exact not_mem_supplies_of_findArgument hfind (mem_suppliers_iff.mp hmem)
  · intro hnone
    cases hfind : findArgument arguments parameter with
    | none => rfl
    | some expr =>
        have hmem := mem_suppliers_iff.mpr (mem_supplies_of_findArgument hfind)
        rw [hnone] at hmem
        cases hmem

/-- A single supplier is the argument that is found. -/
theorem findArgument_of_suppliers_eq_singleton {parameter : String}
    {arguments : List (Argument Expr)} {expr : Expr}
    (hsingle : suppliers parameter arguments = [expr]) :
    findArgument arguments parameter = some expr := by
  cases hfind : findArgument arguments parameter with
  | none =>
      rw [findArgument_eq_none_iff.mp hfind] at hsingle
      cases hsingle
  | some found =>
      have hmem := mem_suppliers_iff.mpr (mem_supplies_of_findArgument hfind)
      rw [hsingle] at hmem
      rw [List.mem_singleton.mp hmem]

/-- What is bound to a parameter, and what is found for it: the last supplier is bound, null where
there is none; an argument is found exactly when there is a supplier; and a supplier that is the
only one is found and bound. -/
theorem slot_of_suppliers {catalog : Gettext.Catalog} {filters : List Filter} {context : Context}
    {arguments : List (Argument Expr)} {bound : List Value} {place : Nat} {parameter : String}
    (hparameter : transParameters[place]? = some parameter)
    (hbind : Expr.bindArguments filters context (transFilter catalog) 0 [] arguments = .ok bound) :
    (∀ expr, (suppliers parameter arguments).getLast? = some expr →
        expr.evaluate filters context = .ok (slot bound place)) ∧
      (findArgument arguments parameter = none ↔ suppliers parameter arguments = []) ∧
      (findArgument arguments parameter = none → slot bound place = .null) ∧
      (∀ expr, suppliers parameter arguments = [expr] →
        findArgument arguments parameter = some expr ∧
          expr.evaluate filters context = .ok (slot bound place)) := by
  have hslot := slot_bindArguments hparameter hbind
  rw [lastSupplied_eq_getLast?] at hslot
  have hlast : ∀ expr, (suppliers parameter arguments).getLast? = some expr →
      expr.evaluate filters context = .ok (slot bound place) := by
    intro expr hexpr
    unfold suppliers at hexpr
    rw [hexpr] at hslot
    exact hslot
  refine ⟨hlast, findArgument_eq_none_iff, ?_, ?_⟩
  · intro hfind
    have hnone := findArgument_eq_none_iff.mp hfind
    unfold suppliers at hnone
    rw [hnone] at hslot
    exact hslot
  · intro expr hsingle
    refine ⟨findArgument_of_suppliers_eq_singleton hsingle, hlast expr ?_⟩
    rw [hsingle, List.getLast?_singleton]

/-- A context by name, a repeated domain, and replacements by position. -/
def repeatedDomain : List (Argument Expr) :=
  [⟨some "domain", .string "a"⟩, ⟨some "context", .string "c"⟩, .positional (.map []),
    .positional (.string "b")]

theorem slots_of_repeatedDomain :
    ∃ bound, Expr.bindArguments [] [] (transFilter (.empty "en")) 0 [] repeatedDomain = .ok bound ∧
      findArgument repeatedDomain "context" = some (.string "c") ∧
      (Expr.string "c").evaluate [] [] = .ok (slot bound 2) ∧
      findArgument repeatedDomain "plural" = none ∧ slot bound 3 = .null := by
  have hbind : Expr.bindArguments [] [] (transFilter (.empty "en")) 0 [] repeatedDomain =
      .ok [.object [], .string "b", .string "c"] := rfl
  have hcontextPlace : transParameters[2]? = some "context" := rfl
  have hpluralPlace : transParameters[3]? = some "plural" := rfl
  obtain ⟨-, -, -, hcontext⟩ := slot_of_suppliers hcontextPlace hbind
  obtain ⟨-, -, hplural, -⟩ := slot_of_suppliers hpluralPlace hbind
  exact ⟨_, hbind, (hcontext _ rfl).1, (hcontext _ rfl).2, rfl, hplural rfl⟩

/-- Of a repeated parameter it is not always the value that is found that is bound: here the domain
under the name is found, and the one by position is bound. -/
theorem domain_found_not_bound :
    ¬ ∀ (arguments : List (Argument Expr)) (bound : List Value) (place : Nat) (parameter : String)
        (expr : Expr), transParameters[place]? = some parameter →
      Expr.bindArguments [] [] (transFilter (.empty "en")) 0 [] arguments = .ok bound →
      findArgument arguments parameter = some expr →
      expr.evaluate [] [] = .ok (slot bound place) := by
  intro hall
  have hdomain := hall repeatedDomain _ 1 "domain" (.string "a") rfl rfl rfl
  rw [Expr.string, Expr.evaluate, Except.ok.injEq] at hdomain
  exact absurd (Value.string.inj hdomain) (by decide)

end TemplateMessages.Template

import Mathlib.Data.List.Nodup
import TemplateMessages.Template.TransFilter

/-!
# Arguments and the parameters they supply

An argument with a name supplies the parameter of that name, and the n-th
argument without one supplies the n-th parameter.  Evaluation puts arguments
into places one after the other, so the last argument of a parameter counts;
`findArgument` looks for the name first and for the position then.  Where no
parameter is supplied twice the two agree.
-/

namespace TemplateMessages.Template

/-- The parameter that an argument supplies, when `next` is the place of the next argument
without a name. -/
def parameterAt (next : Nat) : Option String → Option String
  | some name => some name
  | none => transParameters[next]?

/-- The place of the next argument without a name, behind one with this label. -/
def placeAfter (next : Nat) (label : Option String) : Nat :=
  if label.isNone then next + 1 else next

/-- The values of arguments with the parameters that they supply. -/
def supplies (next : Nat) : List (Argument Expr) → List (Option String × Expr)
  | [] => []
  | ⟨label, value⟩ :: rest =>
      (parameterAt next label, value) :: supplies (placeAfter next label) rest

/-- Arguments that supply parameters of the filter, and none of them twice. -/
structure SuppliedOnce (arguments : List (Argument Expr)) : Prop where
  known : ∀ supplied ∈ supplies 0 arguments, ∃ parameter ∈ transParameters,
    supplied.1 = some parameter
  once : ((supplies 0 arguments).map Prod.fst).Nodup

/-- The last value that is supplied for a parameter. -/
def lastSupplied (parameter : String) : List (Option String × Expr) → Option Expr
  | [] => none
  | (supplied, value) :: rest =>
      (lastSupplied parameter rest).or (if supplied = some parameter then some value else none)

/-- The value in a place, null where nothing was put. -/
def slot (values : List Value) (place : Nat) : Value :=
  values[place]?.getD .null

theorem slot_setPlace (value : Value) (place : Nat) (values : List Value) (other : Nat) :
    slot (setPlace value place values) other = if other = place then value else slot values other := by
  induction place generalizing values other with
  | zero =>
      cases values <;> cases other <;> simp [setPlace, slot]
  | succ place ih =>
      cases values with
      | nil =>
          cases other with
          | zero => simp [setPlace, slot]
          | succ other => simpa [setPlace, slot] using ih [] other
      | cons first rest =>
          cases other with
          | zero => simp [setPlace, slot]
          | succ other => simpa [setPlace, slot] using ih rest other

theorem nodup_transParameters : transParameters.Nodup := by decide

/-- A place is the place of one parameter, the one that the argument supplies. -/
theorem parameterAt_of_placeOf {catalog : Gettext.Catalog} {next place : Nat}
    {label : Option String} (hplace : (transFilter catalog).placeOf next label = .ok place) :
    parameterAt next label = transParameters[place]? := by
  cases label with
  | none =>
      obtain rfl : next = place := Except.ok.inj hplace
      rfl
  | some name =>
      simp only [Filter.placeOf] at hplace
      split at hplace
      case h_1 found hfound =>
        obtain rfl : found = place := Except.ok.inj hplace
        obtain ⟨hlt, hget, -⟩ := List.idxOf?_eq_some_iff.mp hfound
        exact (List.getElem?_eq_some_iff.mpr ⟨hlt, hget⟩).symm
      case h_2 => cases hplace

section Binding

variable {catalog : Gettext.Catalog} {context : Context}

/-- What a parameter is bound to: the last value supplied for it, or what was there before. -/
theorem slot_bindArguments {filters : List Filter} {next place : Nat} {parameter : String}
    {arguments : List (Argument Expr)} {values bound : List Value}
    (hparameter : transParameters[place]? = some parameter)
    (hbind : Expr.bindArguments filters context (transFilter catalog) next values arguments =
      .ok bound) :
    match lastSupplied parameter (supplies next arguments) with
    | some value => value.evaluate filters context = .ok (slot bound place)
    | none => slot bound place = slot values place := by
  induction arguments generalizing next values with
  | nil =>
      obtain rfl : values = bound := Except.ok.inj hbind
      rfl
  | cons argument rest ih =>
      obtain ⟨label, expr⟩ := argument
      obtain ⟨found, hfound, hbind⟩ := bind_eq_ok.mp hbind
      obtain ⟨value, hvalue, hbind⟩ := bind_eq_ok.mp hbind
      have hrest := ih hbind
      have hlabel := parameterAt_of_placeOf hfound
      simp only [supplies, lastSupplied]
      unfold placeAfter
      cases hlast : lastSupplied parameter (supplies (if label.isNone then next + 1 else next) rest) with
      | some later =>
          rw [hlast] at hrest
          exact hrest
      | none =>
          rw [hlast] at hrest
          simp only [slot_setPlace] at hrest
          by_cases hsame : place = found
          · subst hsame
            simpa [hlabel, hparameter, hrest] using hvalue
          · have hother : parameterAt next label ≠ some parameter := by
              intro hsupplied
              rw [hlabel, ← hparameter] at hsupplied
              obtain ⟨hlt, -⟩ := List.getElem?_eq_some_iff.mp hparameter
              exact hsame ((List.getElem?_inj hlt nodup_transParameters).mp hsupplied.symm)
            simpa [hother, hsame] using hrest

/-- Arguments that can be evaluated and supply known parameters can be bound. -/
theorem bindArguments_isOk {filters : List Filter} {next : Nat} {arguments : List (Argument Expr)}
    (hknown : ∀ supplied ∈ supplies next arguments, ∃ parameter ∈ transParameters,
      supplied.1 = some parameter)
    (hvalues : ∀ argument ∈ arguments, ∃ value, argument.value.evaluate filters context = .ok value)
    (values : List Value) :
    ∃ bound, Expr.bindArguments filters context (transFilter catalog) next values arguments =
      .ok bound := by
  induction arguments generalizing next values with
  | nil => exact ⟨values, rfl⟩
  | cons argument rest ih =>
      obtain ⟨label, expr⟩ := argument
      obtain ⟨⟨parameter, hparameter, hlabel⟩, hrest⟩ := List.forall_mem_cons.mp hknown
      obtain ⟨⟨value, hvalue⟩, hothers⟩ := List.forall_mem_cons.mp hvalues
      have hplace : ∃ place, (transFilter catalog).placeOf next label = .ok place := by
        cases label with
        | none => exact ⟨next, rfl⟩
        | some name =>
            obtain rfl : name = parameter := Option.some.inj hlabel
            cases hfound : transParameters.idxOf? name with
            | none => exact absurd hparameter (List.idxOf?_eq_none_iff.mp hfound)
            | some place =>
                refine ⟨place, ?_⟩
                simp only [Filter.placeOf, transFilter, hfound]
      obtain ⟨place, hplace⟩ := hplace
      obtain ⟨bound, hbound⟩ := ih hrest hothers (setPlace value place values)
      exact ⟨bound, bind_eq_ok.mpr ⟨place, hplace, bind_eq_ok.mpr ⟨value, hvalue, hbound⟩⟩⟩

end Binding

/-! ## Finding an argument -/

theorem lastSupplied_eq_none {parameter : String} {supplied : List (Option String × Expr)}
    (hnone : some parameter ∉ supplied.map Prod.fst) : lastSupplied parameter supplied = none := by
  induction supplied with
  | nil => rfl
  | cons first rest ih =>
      rw [List.map_cons, List.mem_cons, not_or] at hnone
      simp [lastSupplied, ih hnone.2, Ne.symm hnone.1]

/-- A parameter that is supplied once has one value. -/
theorem lastSupplied_eq_some {parameter : String} {value : Expr}
    {supplied : List (Option String × Expr)} (hnodup : (supplied.map Prod.fst).Nodup)
    (hmem : (some parameter, value) ∈ supplied) : lastSupplied parameter supplied = some value := by
  induction supplied with
  | nil => simp at hmem
  | cons first rest ih =>
      rw [List.map_cons, List.nodup_cons] at hnodup
      rcases List.mem_cons.mp hmem with rfl | hmem
      · simp [lastSupplied, lastSupplied_eq_none hnodup.1]
      · simp [lastSupplied, ih hnodup.2 hmem]

theorem named_mem_supplies {name : String} {value : Expr} {arguments : List (Argument Expr)}
    (hmem : ⟨some name, value⟩ ∈ arguments) (next : Nat) :
    (some name, value) ∈ supplies next arguments := by
  induction arguments generalizing next with
  | nil => simp at hmem
  | cons argument rest ih =>
      rcases List.mem_cons.mp hmem with rfl | hmem
      · exact List.mem_cons_self
      · exact List.mem_cons_of_mem _ (ih hmem _)

theorem positional_mem_supplies {argument : Argument Expr} {place : Nat}
    {arguments : List (Argument Expr)}
    (hget : (arguments.filter fun argument => argument.name.isNone)[place]? = some argument)
    (next : Nat) : (transParameters[next + place]?, argument.value) ∈ supplies next arguments := by
  induction arguments generalizing next place with
  | nil => simp at hget
  | cons first rest ih =>
      obtain ⟨label, expr⟩ := first
      cases label with
      | some name => exact List.mem_cons_of_mem _ (ih (by simpa using hget) next)
      | none =>
          cases place with
          | zero =>
              obtain rfl : ⟨none, expr⟩ = argument := by simpa using hget
              exact List.mem_cons_self
          | succ place =>
              have hrest : (rest.filter fun argument => argument.name.isNone)[place]? =
                  some argument := by simpa using hget
              have hmem := ih hrest (next + 1)
              rw [Nat.add_right_comm] at hmem
              exact List.mem_cons_of_mem _ hmem

/-- What supplies a parameter is an argument of its name or one in its place. -/
theorem of_mem_supplies {parameter : String} {value : Expr} {arguments : List (Argument Expr)}
    {next : Nat} (hmem : (some parameter, value) ∈ supplies next arguments) :
    (∃ argument ∈ arguments, argument.name = some parameter) ∨
      ∃ place, (arguments.filter fun argument => argument.name.isNone)[place]?.isSome ∧
        transParameters[next + place]? = some parameter := by
  induction arguments generalizing next with
  | nil => simp [supplies] at hmem
  | cons first rest ih =>
      obtain ⟨label, expr⟩ := first
      cases label with
      | some name =>
          rcases List.mem_cons.mp hmem with hhead | hmem
          · obtain rfl : parameter = name := Option.some.inj (congrArg Prod.fst hhead)
            exact Or.inl ⟨_, List.mem_cons_self, rfl⟩
          · refine (ih hmem).imp ?_ ?_
            · rintro ⟨argument, hargument, hname⟩
              exact ⟨argument, List.mem_cons_of_mem _ hargument, hname⟩
            · rintro ⟨place, hsome, hplace⟩
              exact ⟨place, by simpa using hsome, hplace⟩
      | none =>
          rcases List.mem_cons.mp hmem with hhead | hmem
          · exact Or.inr ⟨0, by simp, (congrArg Prod.fst hhead).symm⟩
          · refine (ih hmem).imp ?_ ?_
            · rintro ⟨argument, hargument, hname⟩
              exact ⟨argument, List.mem_cons_of_mem _ hargument, hname⟩
            · rintro ⟨place, hsome, hplace⟩
              refine ⟨place + 1, by simpa using hsome, ?_⟩
              rw [← Nat.add_assoc, Nat.add_right_comm]
              exact hplace

/-- The argument that is found for a parameter supplies it. -/
theorem mem_supplies_of_findArgument {parameter : String} {value : Expr}
    {arguments : List (Argument Expr)} (hfind : findArgument arguments parameter = some value) :
    (some parameter, value) ∈ supplies 0 arguments := by
  unfold findArgument at hfind
  split at hfind
  case h_1 argument hargument =>
    obtain ⟨name, expr⟩ := argument
    obtain rfl : expr = value := Option.some.inj hfind
    obtain rfl : name = some parameter := by simpa using List.find?_some hargument
    exact named_mem_supplies (List.mem_of_find?_eq_some hargument) 0
  case h_2 =>
    split at hfind
    case h_1 => cases hfind
    case h_2 place hplace =>
      obtain ⟨argument, hargument, rfl⟩ := Option.map_eq_some_iff.mp hfind
      obtain ⟨hlt, hget, -⟩ := List.idxOf?_eq_some_iff.mp hplace
      have hmem := positional_mem_supplies hargument 0
      rw [Nat.zero_add, List.getElem?_eq_getElem hlt, hget] at hmem
      exact hmem

/-- Nothing supplies a parameter for which no argument is found. -/
theorem not_mem_supplies_of_findArgument {parameter : String} {value : Expr}
    {arguments : List (Argument Expr)} (hfind : findArgument arguments parameter = none) :
    (some parameter, value) ∉ supplies 0 arguments := by
  intro hmem
  unfold findArgument at hfind
  split at hfind
  case h_1 => cases hfind
  case h_2 hnamed =>
    rcases of_mem_supplies hmem with ⟨argument, hargument, hname⟩ | ⟨place, hsome, hplace⟩
    · have := List.find?_eq_none.mp hnamed argument hargument
      simp [hname] at this
    · rw [Nat.zero_add] at hplace
      obtain ⟨hlt, hget⟩ := List.getElem?_eq_some_iff.mp hplace
      have hidx : transParameters.idxOf? parameter = some place := by
        rw [← hget]
        exact List.idxOf?_eq_some_iff.mpr ⟨hlt, rfl, fun other hother heq =>
          absurd (nodup_transParameters.getElem_inj_iff.mp heq) (Nat.ne_of_lt hother)⟩
      rw [hidx] at hfind
      obtain ⟨argument, hargument⟩ := Option.isSome_iff_exists.mp hsome
      simp [hargument] at hfind

/-- Where no parameter is supplied twice, the argument that is found for one is the one that
counts when the arguments are bound. -/
theorem lastSupplied_eq_findArgument {arguments : List (Argument Expr)}
    (hsupplied : SuppliedOnce arguments) (parameter : String) :
    lastSupplied parameter (supplies 0 arguments) = findArgument arguments parameter := by
  cases hfind : findArgument arguments parameter with
  | some value => exact lastSupplied_eq_some hsupplied.once (mem_supplies_of_findArgument hfind)
  | none =>
      apply lastSupplied_eq_none
      intro hmem
      obtain ⟨⟨supplied, value⟩, hmem, rfl⟩ := List.mem_map.mp hmem
      exact not_mem_supplies_of_findArgument hfind hmem

end TemplateMessages.Template

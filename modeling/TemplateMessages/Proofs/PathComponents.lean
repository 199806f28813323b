import TemplateMessages.Path
import TemplateMessages.Proofs.Separators

/-!
# Components of a joined path

What a path leads to is told by its components: the root or `.` at its start, and
the names between its slashes.  A path that is seen from a base has the components
of the base in front of its own names, unless it starts at the root.
-/

namespace TemplateMessages.Path

/-! ## Texts between slashes -/

theorem pieces_eq_splitOn (text : List Char) : pieces text = text.splitOn '/' := by
  induction text with
  | nil => rfl
  | cons c rest ih =>
      rw [pieces, List.splitOn_cons_eq_if_modifyHead, ih]
      cases hrest : rest.splitOn '/' with
      | nil => exact absurd hrest (List.splitOn_ne_nil '/' rest)
      | cons first others => simp

theorem mem_of_mem_splitOn {text piece : List Char} {separator c : Char}
    (hpiece : piece ∈ text.splitOn separator) (hc : c ∈ piece) : c ∈ text := by
  induction text generalizing piece with
  | nil =>
      rw [List.mem_singleton.mp hpiece] at hc
      exact hc
  | cons first rest ih =>
      rw [List.splitOn_cons_eq_if_modifyHead] at hpiece
      split at hpiece
      · rcases List.mem_cons.mp hpiece with rfl | hpiece
        · exact absurd hc List.not_mem_nil
        · exact List.mem_cons_of_mem _ (ih hpiece hc)
      · cases hrest : rest.splitOn separator with
        | nil => exact absurd hrest (List.splitOn_ne_nil separator rest)
        | cons head others =>
            rw [hrest] at hpiece ih
            rcases List.mem_cons.mp hpiece with rfl | hpiece
            · rcases List.mem_cons.mp hc with rfl | hc
              · exact List.mem_cons_self
              · exact List.mem_cons_of_mem _ (ih List.mem_cons_self hc)
            · exact List.mem_cons_of_mem _ (ih (List.mem_cons_of_mem _ hpiece) hc)

/-- The names of a path: its texts between slashes but for the void ones. -/
def names (text : List Char) : List Component :=
  ((text.splitOn '/').filter fun piece => !isVoid piece).map component

@[simp]
theorem names_nil : names [] = [] := rfl

theorem names_append_slash (front rest : List Char) :
    names (front ++ '/' :: rest) = names front ++ names rest := by
  rw [names, List.splitOn_append_cons_self, List.filter_append, List.map_append]
  rfl

theorem names_slash (rest : List Char) : names ('/' :: rest) = names rest :=
  names_append_slash [] rest

/-- What a path starts with that is no name. -/
def start? : List Char → Option Component
  | '/' :: _ => some .root
  | ['.'] => some .current
  | '.' :: '/' :: _ => some .current
  | _ => none

/-- A path is what it starts with, and its names. -/
theorem components_eq (path : String) :
    components path = (start? path.toList).toList ++ names path.toList := by
  have hbody : ∀ text, ((pieces text).filter fun piece => !isVoid piece).map component =
      names text := by
    intro text
    rw [pieces_eq_splitOn, names]
  unfold components layout
  split
  case h_1 rest hpath =>
    rw [hpath, names_slash, ← hbody]
    rfl
  case h_2 hpath =>
    rw [hpath]
    rfl
  case h_3 rest hpath =>
    have hnames : names ('.' :: '/' :: rest) = names rest := names_append_slash ['.'] rest
    rw [hpath, hnames, ← hbody]
    rfl
  case h_4 hroot hdot hcurrent =>
    have hstart : start? path.toList = none := by
      unfold start?
      split
      case h_1 rest hpath => exact absurd hpath (hroot rest)
      case h_2 hpath => exact absurd hpath hdot
      case h_3 rest hpath => exact absurd hpath (hcurrent rest)
      case h_4 => rfl
    rw [hstart, ← hbody]

/-- A path that goes on behind a slash starts as it did before. -/
theorem start?_append_slash {front : List Char} (hfront : front ≠ []) (rest : List Char) :
    start? (front ++ '/' :: rest) = start? front := by
  cases front with
  | nil => exact absurd rfl hfront
  | cons first others =>
      by_cases hroot : first = '/'
      · subst hroot
        rfl
      by_cases hdot : first = '.'
      · subst hdot
        cases others with
        | nil => rfl
        | cons second others =>
            by_cases hslash : second = '/'
            · subst hslash
              rfl
            · simp [start?, hslash]
      · simp [start?, hroot, hdot]

theorem components_of_isAbsolute {path : String} (hpath : isAbsolute path = true) :
    components path = .root :: names path.toList := by
  have hstart : start? path.toList = some .root := by
    cases hchars : path.toList with
    | nil => simp [isAbsolute, hchars] at hpath
    | cons c rest =>
        obtain rfl : c = '/' := by simpa [isAbsolute, hchars] using hpath
        rfl
  rw [components_eq, hstart]
  rfl

/-- A path that does not start at the root adds its names to the components of a base. -/
theorem components_join {base path : String} (hbase : base ≠ "") (hpath : isAbsolute path = false) :
    components (join base path) = components base ++ names path.toList := by
  have hempty : base.isEmpty = false := by
    simpa using hbase
  rw [join, if_neg (ne_true_of_eq_false hpath), hempty, Bool.false_or]
  split
  case isTrue hslash =>
    -- The base ends in the slash, so its own last name is void.
    obtain ⟨front, hfront⟩ := List.getLast?_eq_some_iff.mp (beq_iff_eq.mp hslash)
    have hjoined : (base ++ path).toList = front ++ '/' :: path.toList := by
      simp [hfront]
    have hstart : start? (front ++ '/' :: path.toList) = start? (front ++ ['/']) := by
      by_cases hroot : front = []
      · subst hroot
        rfl
      · rw [start?_append_slash hroot, start?_append_slash hroot]
    rw [components_eq, components_eq, hjoined, hfront, hstart, names_append_slash, names_append_slash,
      names_nil, List.append_nil, List.append_assoc]
  case isFalse =>
    have hchars : base.toList ≠ [] := by
      simpa using hbase
    have hjoined : (base ++ "/" ++ path).toList = base.toList ++ '/' :: path.toList := by
      simp
    rw [components_eq, components_eq, hjoined, start?_append_slash hchars, names_append_slash,
      List.append_assoc]

/-! ## The last slash -/

/-- What stands behind the last slash of a text. -/
def baseName (text : String) : String :=
  String.ofList ((text.toList.splitOn '/').getLast (List.splitOn_ne_nil '/' text.toList))

/-- The names that stand in front of the last slash of a text. -/
def ahead (text : String) : List Component :=
  ((text.toList.splitOn '/').dropLast.filter fun piece => !isVoid piece).map component

theorem exists_last_slash (text : List Char) :
    '/' ∉ text ∨ ∃ front name, text = front ++ '/' :: name ∧ '/' ∉ name := by
  induction text with
  | nil => exact .inl List.not_mem_nil
  | cons c rest ih =>
      rcases ih with hnone | ⟨front, name, rfl, hname⟩
      · by_cases hc : c = '/'
        · exact .inr ⟨[], rest, by rw [hc, List.nil_append], hnone⟩
        · exact .inl (List.not_mem_cons_of_ne_of_not_mem (Ne.symm hc) hnone)
      · exact .inr ⟨c :: front, name, rfl, hname⟩

/-- What is put behind a text goes to its last piece, when there is no slash in it. -/
theorem splitOn_append_of_notMem {more : List Char} (hmore : '/' ∉ more) (text : List Char) :
    (text ++ more).splitOn '/' =
      (text.splitOn '/').dropLast ++
        [(text.splitOn '/').getLast (List.splitOn_ne_nil '/' text) ++ more] := by
  rcases exists_last_slash text with hnone | ⟨front, name, rfl, hname⟩
  · have hboth : '/' ∉ text ++ more := by
      simp [hnone, hmore]
    simp [List.splitOn_eq_singleton hnone, List.splitOn_eq_singleton hboth]
  · have hboth : '/' ∉ name ++ more := by
      simp [hname, hmore]
    rw [List.append_assoc, List.cons_append]
    simp [List.splitOn_append_cons_self, List.splitOn_eq_singleton hname,
      List.splitOn_eq_singleton hboth]

/-- Only short texts between slashes are no names. -/
theorem component_of_two_lt {piece : List Char} (hlong : 2 < piece.length) :
    isVoid piece = false ∧ component piece = .normal (String.ofList piece) := by
  have hempty : piece ≠ [] := by
    rintro rfl
    exact absurd hlong (by decide)
  have hdot : piece ≠ ['.'] := by
    rintro rfl
    exact absurd hlong (by decide)
  have hparent : piece ≠ ['.', '.'] := by
    rintro rfl
    exact absurd hlong (by decide)
  constructor
  · simp [isVoid, hempty, hdot]
  · rw [component, if_neg hparent]

/-- A path with an extension ends in a name, behind the names that stand in front of it. -/
theorem names_extension (text : String) {extension : String} (hslash : '/' ∉ extension.toList)
    (hlong : 1 < extension.length) :
    names (text ++ "." ++ extension).toList =
      ahead text ++ [.normal (baseName text ++ "." ++ extension)] := by
  have hmore : '/' ∉ '.' :: extension.toList := by
    simp [hslash]
  have hfile : (text ++ "." ++ extension).toList = text.toList ++ '.' :: extension.toList := by
    simp
  have hlength : 2 < ((text.toList.splitOn '/').getLast (List.splitOn_ne_nil '/' text.toList) ++
      '.' :: extension.toList).length := by
    rw [List.length_append, List.length_cons, String.length_toList]
    omega
  obtain ⟨hvoid, hnormal⟩ := component_of_two_lt hlength
  have hname : String.ofList ((text.toList.splitOn '/').getLast
      (List.splitOn_ne_nil '/' text.toList) ++ '.' :: extension.toList) =
      baseName text ++ "." ++ extension := by
    apply String.toList_inj.mp
    simp [baseName]
  rw [names, hfile, splitOn_append_of_notMem hmore, List.filter_append, List.map_append,
    List.filter_cons_of_pos (by rw [hvoid]; rfl), List.filter_nil, List.map_singleton, hnormal, hname]
  rfl

/-- Without a slash a text is its own last piece, and nothing stands in front of it. -/
theorem baseName_of_notMem {text : String} (hslash : '/' ∉ text.toList) :
    baseName text = text ∧ ahead text = [] := by
  simp [baseName, ahead, List.splitOn_eq_singleton hslash]

/-! ## References -/

/-- The pieces of a path are made of its characters. -/
theorem mem_of_mem_body {path : String} {piece : List Char} {c : Char}
    (hpiece : piece ∈ (layout path).body) (hc : c ∈ piece) : c ∈ path.toList := by
  unfold layout at hpiece
  split at hpiece
  case h_1 rest hpath =>
    rw [pieces_eq_splitOn] at hpiece
    rw [hpath]
    exact List.mem_cons_of_mem _ (mem_of_mem_splitOn hpiece hc)
  case h_2 => exact absurd hpiece List.not_mem_nil
  case h_3 rest hpath =>
    rw [pieces_eq_splitOn] at hpiece
    rcases List.mem_cons.mp hpiece with rfl | hpiece
    · exact absurd hc List.not_mem_nil
    · rw [hpath]
      exact List.mem_cons_of_mem _ (List.mem_cons_of_mem _ (mem_of_mem_splitOn hpiece hc))
  case h_4 =>
    rw [pieces_eq_splitOn] at hpiece
    exact mem_of_mem_splitOn hpiece hc

/-- What stands in front of the last name of a path is on one line if the path is. -/
theorem newline_notMem_parent {path directory : String} (hpath : '\n' ∉ path.toList)
    (hparent : parent? path = some directory) : '\n' ∉ directory.toList := by
  have hhead : ∀ component : Component, (layout path).head = some component →
      '\n' ∉ component.text.toList := by
    intro component hstart
    unfold layout at hstart
    split at hstart <;> simp at hstart <;> subst hstart <;> decide
  unfold parent? at hparent
  dsimp only at hparent
  split at hparent
  case h_1 last others hbody =>
    obtain rfl := Option.some.inj hparent
    have hkept : '\n' ∉ ("/".intercalate
        ((others.dropWhile isVoid).reverse.map String.ofList)).toList := by
      rw [String.toList_intercalate]
      intro hmem
      rcases mem_or_of_mem_intercalate hmem with hslash | ⟨text, htext, hnewline⟩
      · exact absurd hslash (by decide)
      · obtain ⟨piece, hpiece, rfl⟩ := List.mem_map.mp (List.map_map ▸ htext)
        have hothers : piece ∈ others :=
          (List.dropWhile_suffix isVoid).subset (List.mem_reverse.mp hpiece)
        have hin : piece ∈ (layout path).body := by
          apply List.mem_reverse.mp
          apply (List.dropWhile_suffix isVoid).subset
          rw [hbody]
          exact List.mem_cons_of_mem _ hothers
        exact hpath (mem_of_mem_body hin (by simpa using hnewline))
    rw [String.toList_append, List.mem_append, not_or]
    refine ⟨?_, hkept⟩
    split
    case h_1 component hstart => exact hhead component hstart
    case h_2 => exact List.not_mem_nil
  case h_2 =>
    split at hparent
    · obtain rfl := Option.some.inj hparent
      exact List.not_mem_nil
    · cases hparent

theorem newline_notMem_fileName {path name : String} (hpath : '\n' ∉ path.toList)
    (hname : fileName? path = some name) : '\n' ∉ name.toList := by
  have hlast : Component.normal name ∈ components path := by
    unfold fileName? at hname
    split at hname
    case h_1 last hlast =>
      obtain rfl := Option.some.inj hname
      exact List.mem_of_getLast? hlast
    case h_2 => cases hname
  rw [components_eq, List.mem_append] at hlast
  rcases hlast with hstart | hnames
  · rw [Option.mem_toList] at hstart
    unfold start? at hstart
    split at hstart <;> cases hstart
  · obtain ⟨piece, hpiece, hcomponent⟩ := List.mem_map.mp hnames
    unfold component at hcomponent
    split at hcomponent
    · cases hcomponent
    · obtain rfl := Component.normal.inj hcomponent
      intro hmem
      rw [String.toList_ofList] at hmem
      exact hpath (mem_of_mem_splitOn (List.mem_filter.mp hpiece).1 hmem)

/-- A path on one line is referred to on one line. -/
theorem newline_notMem_reference {path : String} (hpath : '\n' ∉ path.toList) :
    '\n' ∉ (reference path).toList := by
  unfold reference
  split
  case h_1 directory name hparent hname =>
    split
    · exact hpath
    · have hdirectory := newline_notMem_parent hpath hparent
      have hlast := newline_notMem_fileName hpath hname
      simp [hdirectory, hlast]
  case h_2 => exact hpath

end TemplateMessages.Path

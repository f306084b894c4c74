import Mathlib.Data.Fintype.EquivFin
import TypedClient.Path
import TypedClient.Proofs.Text.Words

/-! Paths that end in the name of a file: they lead to that name in the directory in front of it,
and the directory imports the file by its name. Ways that never go above their start. -/

namespace TypedClient.Path

/-- A name that is one step down. -/
structure IsStep (name : String) : Prop where
  given : name ≠ ""
  whole : ∀ c ∈ name.toList, isSlash c = false
  here : name ≠ "."
  up : name ≠ ".."

variable {name path : String}

theorem isStep_of_check (checked : (name != "" && name.toList.all (!isSlash ·) && name != "." &&
    name != "..") = true) : IsStep name := by
  simp only [Bool.and_eq_true, bne_iff_ne, List.all_eq_true, Bool.not_eq_true'] at checked
  obtain ⟨⟨⟨given, whole⟩, here⟩, up⟩ := checked
  exact ⟨given, whole, here, up⟩

theorem enter_of_isStep (step : IsStep name) (place : List String) :
    enter place name = place ++ [name] := by
  unfold enter
  rw [if_neg (by simpa using step.here), if_neg (by simpa using step.up)]

theorem parts_of_isStep (step : IsStep name) : parts name = [name] := by
  have solid : name.toList ≠ [] := by simpa using step.given
  unfold parts
  rw [Text.splitWhere_of_none step.whole]
  simp [solid]

theorem parts_append_slash (front back : List Char) :
    parts (String.ofList (front ++ '/' :: back)) =
      parts (String.ofList front) ++ parts (String.ofList back) := by
  unfold parts
  rw [String.toList_ofList, String.toList_ofList, String.toList_ofList,
    Text.splitWhere_append (by decide), List.filter_append, List.map_append]

theorem isAbsolute_of_isStep (step : IsStep name) : isAbsolute name = false := by
  unfold isAbsolute
  cases shape : name.toList with
  | nil => rfl
  | cons c rest =>
      have solid := step.whole c (by simp [shape])
      simpa [isSlash] using solid

theorem endsWith_slash (closed : endsWith "/" path = true) :
    ∃ front, path = String.ofList (front ++ ['/']) := by
  rcases List.isSuffixOf_iff_suffix.mp closed with ⟨front, shape⟩
  exact ⟨front, String.toList_inj.mp (shape.symm.trans String.toList_ofList.symm)⟩

theorem join_of_relative {second : String} (relative : isAbsolute second = false) (first : String) :
    parts (join first second) = parts first ++ parts second ∧
      isAbsolute (join first second) = isAbsolute first := by
  unfold join
  rw [if_neg (by simp [relative])]
  split
  · rename_i closed
    rcases Bool.or_eq_true _ _ ▸ closed with empty | slash
    · rw [beq_iff_eq.mp empty, String.empty_append]
      exact ⟨rfl, relative⟩
    · rcases endsWith_slash slash with ⟨front, rfl⟩
      have shape : String.ofList (front ++ ['/']) ++ second =
          String.ofList (front ++ '/' :: second.toList) := by
        apply String.toList_inj.mp
        simp
      constructor
      · rw [shape, parts_append_slash, parts_append_slash, String.ofList_toList]
        simp [parts, Text.splitWhere]
      · rw [shape]
        cases front <;> simp [isAbsolute]
  · rename_i opened
    rw [Bool.or_eq_true, not_or] at opened
    have solid : first.toList ≠ [] := by simpa using opened.1
    have shape : first ++ "/" ++ second = String.ofList (first.toList ++ '/' :: second.toList) := by
      apply String.toList_inj.mp
      simp
    constructor
    · rw [shape, parts_append_slash, String.ofList_toList, String.ofList_toList]
    · rw [shape]
      rcases List.exists_cons_of_ne_nil solid with ⟨c, rest, start⟩
      simp [isAbsolute, start]

theorem join_of_isStep (step : IsStep name) (path : String) :
    parts (join path name) = parts path ++ [name] ∧
      isAbsolute (join path name) = isAbsolute path := by
  rw [← parts_of_isStep step]
  exact join_of_relative (isAbsolute_of_isStep step) path

theorem absolute_join_of_relative {second : String} (relative : isAbsolute second = false)
    (directory : List String) (first : String) :
    absolute directory (join first second) =
      (parts second).foldl enter (absolute directory first) := by
  rcases join_of_relative relative first with ⟨parts_eq, start⟩
  unfold absolute
  rw [parts_eq, start, List.foldl_append]

theorem absolute_join (step : IsStep name) (directory : List String) (path : String) :
    absolute directory (join path name) = absolute directory path ++ [name] := by
  rw [absolute_join_of_relative (isAbsolute_of_isStep step), parts_of_isStep step, List.foldl_cons,
    List.foldl_nil, enter_of_isStep step]

theorem join_ne_empty (step : IsStep name) (path : String) : join path name ≠ "" := by
  intro nothing
  have behind := (join_of_isStep step path).1
  rw [nothing] at behind
  have none_there : parts "" = [] := rfl
  rw [none_there] at behind
  simp at behind

theorem dropShared_append (front back : List String) :
    dropShared front (front ++ back) = ([], back) := by
  induction front with
  | nil => cases back <;> rfl
  | cons first rest ih =>
      rw [List.cons_append, dropShared, if_pos (by simp)]
      exact ih

theorem relative_down (place : List String) (name : String) :
    relative place (place ++ [name]) = name := by
  unfold relative
  rw [dropShared_append]
  rfl

theorem endsWith_source (stem : String) : endsWith ".ts" (stem ++ ".ts") = true := by
  unfold endsWith
  rw [List.isSuffixOf_iff_suffix, String.toList_append]
  exact List.suffix_append _ _

theorem take_source (stem : String) :
    String.ofList ((stem ++ ".ts").toList.take ((stem ++ ".ts").length - 3)) = stem := by
  have short : (stem ++ ".ts").toList.take ((stem ++ ".ts").length - 3) = stem.toList := by
    rw [String.length_append, String.toList_append]
    exact List.take_left
  rw [short, String.ofList_toList]

theorem importSpecifier_join {name : String} (step : IsStep (name ++ ".ts"))
    (plain : name.toList.head? ≠ some '.') (directory : List String) (path : String) :
    importSpecifier directory path (join path (name ++ ".ts")) = .ok ("./" ++ name) := by
  unfold importSpecifier
  rw [if_neg (by simpa using join_ne_empty step path), absolute_join step, relative_down]
  dsimp only
  rw [if_pos (endsWith_source name), take_source, if_neg (by simpa using plain)]

theorem name_append_slash (front back : List Char) :
    Path.name (String.ofList (front ++ '/' :: back)) = Path.name (String.ofList back) := by
  unfold Path.name Text.afterLast
  rw [String.toList_ofList, String.toList_ofList, List.reverse_append, List.reverse_cons,
    List.append_assoc, List.singleton_append]
  congr 2
  induction back.reverse with
  | nil => rfl
  | cons c rest ih =>
      rw [List.cons_append, List.takeWhile_cons, List.takeWhile_cons]
      split
      · rw [ih]
      · rfl

theorem name_of_whole {name : String} (whole : ∀ c ∈ name.toList, isSlash c = false) :
    Path.name name = name := by
  have stays : ∀ c ∈ name.toList.reverse, (!isSlash c) = true := by simpa using whole
  rw [Path.name, Text.afterLast, List.takeWhile_eq_self_iff.mpr stays, List.reverse_reverse,
    String.ofList_toList]

theorem name_behind {name : String} (whole : ∀ c ∈ name.toList, isSlash c = false)
    (front : String) : Path.name (front ++ "/" ++ name) = name := by
  have shape : front ++ "/" ++ name = String.ofList (front.toList ++ '/' :: name.toList) := by
    apply String.toList_inj.mp
    simp
  rw [shape, name_append_slash, String.ofList_toList, name_of_whole whole]

theorem name_join (first second : String) : Path.name (join first second) = Path.name second := by
  unfold join
  split
  · rfl
  · split
    · rename_i closed
      rcases Bool.or_eq_true _ _ ▸ closed with empty | slash
      · rw [beq_iff_eq.mp empty, String.empty_append]
      · obtain ⟨front, rfl⟩ := endsWith_slash slash
        have shape : String.ofList (front ++ ['/']) ++ second =
            String.ofList (front ++ '/' :: second.toList) := by
          apply String.toList_inj.mp
          simp
        rw [shape, name_append_slash, String.ofList_toList]
    · have shape : first ++ "/" ++ second =
          String.ofList (first.toList ++ '/' :: second.toList) := by
        apply String.toList_inj.mp
        simp
      rw [shape, name_append_slash, String.ofList_toList]

section Parent

theorem parts_slashes {slashes : List Char} (only : ∀ c ∈ slashes, isSlash c = true) :
    parts (String.ofList slashes) = [] := by
  induction slashes with
  | nil => rfl
  | cons c rest ih =>
      have later := ih fun d member => only d (by simp [member])
      have own : c = '/' := by simpa [isSlash] using only c (by simp)
      have split := parts_append_slash [] rest
      rw [List.nil_append, later, List.append_nil] at split
      rw [own, split]
      rfl

theorem parts_append_slashes {slashes : List Char} (only : ∀ c ∈ slashes, isSlash c = true)
    (front : List Char) :
    parts (String.ofList (front ++ slashes)) = parts (String.ofList front) := by
  cases slashes with
  | nil => rw [List.append_nil]
  | cons c rest =>
      have own : c = '/' := by simpa [isSlash] using only c (by simp)
      have nothing := parts_slashes fun d member => only d (List.mem_cons_of_mem c member)
      rw [own, parts_append_slash, nothing, List.append_nil]

/-- In front of the name of a path stands nothing, or its directory and slashes. -/
theorem exists_head (path : String) : ∃ head slashes : List Char,
    path = String.ofList (head ++ (Path.name path).toList) ∧
    (head = [] ∨ ∃ front, head = front ++ ['/']) ∧
    head = (parent path).toList ++ slashes ∧ (∀ c ∈ slashes, isSlash c = true) ∧
    (parent path = "" → head = []) := by
  have whole : path = String.ofList ((path.toList.reverse.dropWhile (!isSlash ·)).reverse ++
      (Path.name path).toList) := by
    apply String.toList_inj.mp
    rw [Path.name, Text.afterLast, String.toList_ofList, String.toList_ofList,
      ← List.reverse_append, List.takeWhile_append_dropWhile, List.reverse_reverse]
  have ended : (path.toList.reverse.dropWhile (!isSlash ·)).reverse = [] ∨
      ∃ front, (path.toList.reverse.dropWhile (!isSlash ·)).reverse = front ++ ['/'] := by
    cases shape : path.toList.reverse.dropWhile (!isSlash ·) with
    | nil => exact .inl rfl
    | cons c rest =>
        have stopped := List.head_dropWhile_not (!isSlash ·) (by rw [shape]; simp)
        simp only [shape, List.head_cons, Bool.not_eq_false'] at stopped
        have slash : c = '/' := beq_iff_eq.mp stopped
        exact .inr ⟨rest.reverse, by rw [slash, List.reverse_cons]⟩
  have around : (parent path).toList =
      if (path.toList.reverse.dropWhile (!isSlash ·)).reverse.all isSlash then
        (path.toList.reverse.dropWhile (!isSlash ·)).reverse
      else Text.dropTrailing isSlash (path.toList.reverse.dropWhile (!isSlash ·)).reverse := by
    rw [parent, String.toList_ofList]
  generalize (path.toList.reverse.dropWhile (!isSlash ·)).reverse = head at whole ended around
  split at around
  · refine ⟨head, [], whole, ended, by rw [around, List.append_nil], by simp, fun empty => ?_⟩
    rw [← around, String.toList_eq_nil_iff.mpr empty]
  · rename_i other
    refine ⟨head, head.rtakeWhile isSlash, whole, ended, ?_,
      fun c member => List.mem_rtakeWhile_imp member, fun empty => ?_⟩
    · rw [around]
      exact List.rdropWhile_append_rtakeWhile.symm
    · rw [String.toList_eq_nil_iff.mpr empty] at around
      have dropped : head.rdropWhile isSlash = [] := around.symm
      rw [List.rdropWhile_eq_nil_iff] at dropped
      exact absurd (List.all_eq_true.mpr dropped) other

theorem absolute_parent (step : IsStep (Path.name path)) (directory : List String) :
    absolute directory path = absolute directory (parent path) ++ [Path.name path] := by
  obtain ⟨head, slashes, whole, ended, around, only, given⟩ := exists_head path
  have both : isAbsolute path = isAbsolute (parent path) ∧
      parts path = parts (parent path) ++ [Path.name path] := by
    rcases ended with nothing | ⟨front, slash⟩
    · have bare : parent path = "" := by
        rw [nothing, eq_comm, List.append_eq_nil_iff] at around
        exact String.toList_eq_nil_iff.mp around.1
      have alone : path = Path.name path := by
        rwa [nothing, List.nil_append, String.ofList_toList] at whole
      rw [bare]
      generalize Path.name path = name at alone step
      subst alone
      exact ⟨isAbsolute_of_isStep step, parts_of_isStep step⟩
    · constructor
      · have solid : (parent path).toList ≠ [] := by
          intro empty
          rw [given (String.toList_eq_nil_iff.mp empty)] at slash
          simp at slash
        obtain ⟨c, rest, start⟩ := List.exists_cons_of_ne_nil solid
        rw [around, start] at whole
        unfold isAbsolute
        rw [start, whole, String.toList_ofList]
        rfl
      · have same : parts (parent path) = parts (String.ofList front) := by
          have dropped := parts_append_slashes only (parent path).toList
          rw [← around, String.ofList_toList, slash] at dropped
          rw [← dropped]
          exact parts_append_slashes (by simp [isSlash]) front
        rw [same]
        conv_lhs => rw [whole, slash, List.append_assoc, List.singleton_append,
          parts_append_slash, String.ofList_toList, parts_of_isStep step]
  unfold absolute
  rw [both.1, both.2, List.foldl_append, List.foldl_cons, List.foldl_nil, enter_of_isStep step]

/-- The name of a source file is one step, unless it holds a slash. -/
theorem isStep_source {stem : String} (whole : '/' ∉ stem.toList) : IsStep (stem ++ ".ts") where
  given := by simp
  whole := by
    intro c member
    rw [isSlash, beq_eq_false_iff_ne]
    rintro rfl
    rw [String.toList_append, List.mem_append] at member
    exact member.elim whole (by decide)
  here := fun same => by
    have last := congrArg (fun text => text.toList.getLast?) same
    simp at last
  up := fun same => by
    have last := congrArg (fun text => text.toList.getLast?) same
    simp at last

theorem isStep_name_of_source (source : endsWith ".ts" path = true) : IsStep (Path.name path) := by
  obtain ⟨front, shape⟩ := List.isSuffixOf_iff_suffix.mp source
  have named : Path.name path = String.ofList (Text.afterLast isSlash front) ++ ".ts" := by
    apply String.toList_inj.mp
    rw [Path.name, Text.afterLast, ← shape, List.reverse_append]
    simp [Text.afterLast, isSlash]
  rw [named]
  apply isStep_source
  rw [String.toList_ofList]
  intro slash
  have stops := List.mem_takeWhile_imp (List.mem_reverse.mp slash)
  exact absurd stops (by decide)

end Parent

section Descent

def Below (directory place : List String) : Prop := ∃ down, down ≠ [] ∧ place = directory ++ down

/-- How far below its start a way is after one more step; none if the step leaves the start. -/
def deepen (depth : Nat) (part : String) : Option Nat :=
  if part == "." then some depth
  else if part == ".." then if depth = 0 then none else some (depth - 1)
  else some (depth + 1)

def staysInside (way : List String) : Bool := (way.foldlM deepen 0).isSome

theorem foldl_enter_of_deepen {way : List String} {depth : Nat} {root down : List String}
    (inside : way.foldlM deepen down.length = some depth) :
    ∃ deeper, way.foldl enter (root ++ down) = root ++ deeper := by
  induction way generalizing down with
  | nil => exact ⟨down, rfl⟩
  | cons part rest ih =>
      obtain ⟨next, step, later⟩ := Option.bind_eq_some_iff.mp inside
      obtain ⟨down', entered, length⟩ : ∃ down', enter (root ++ down) part = root ++ down' ∧
          down'.length = next := by
        unfold deepen at step
        unfold enter
        split at step
        · rename_i here
          rw [if_pos here]
          exact ⟨down, rfl, Option.some.inj step⟩
        · rename_i moves
          rw [if_neg moves]
          split at step
          · rename_i up
            split at step
            · cases step
            · rename_i deep
              rw [if_pos up, List.dropLast_append_of_ne_nil (mt List.length_eq_zero_iff.mpr deep)]
              exact ⟨down.dropLast, rfl, by simpa using Option.some.inj step⟩
          · rename_i named
            rw [if_neg named, List.append_assoc]
            exact ⟨down ++ [part], rfl, by simpa using Option.some.inj step⟩
      rw [← length] at later
      rw [List.foldl_cons, entered]
      exact ih later

/-- No way adds a name that it does not have. -/
theorem count_foldl_enter {foreign : String} {way : List String} (absent : foreign ∉ way)
    (place : List String) : (way.foldl enter place).count foreign ≤ place.count foreign := by
  induction way generalizing place with
  | nil => exact Nat.le_refl _
  | cons part rest ih =>
      rw [List.mem_cons, not_or] at absent
      refine (ih absent.2 _).trans ?_
      unfold enter
      split
      · exact Nat.le_refl _
      · split
        · exact (List.dropLast_sublist place).count_le foreign
        · simp [List.count_append, Ne.symm absent.1]

theorem not_mem_of_leaves {foreign : String} {way down : List String} (absent : foreign ∉ way)
    (leaves : way.foldlM deepen down.length = none) (below : foreign ∉ down) :
    foreign ∉ way.foldl enter (foreign :: down) := by
  induction way generalizing down with
  | nil => cases leaves
  | cons part rest ih =>
      rw [List.mem_cons, not_or] at absent
      rw [List.foldlM_cons, deepen] at leaves
      rw [List.foldl_cons, enter]
      split at leaves
      · rename_i here
        rw [if_pos here]
        exact ih absent.2 leaves below
      · rename_i moves
        rw [if_neg moves]
        split at leaves
        · rename_i up
          rw [if_pos up]
          cases down with
          | nil =>
              apply List.count_eq_zero.mp
              exact Nat.le_zero.mp (count_foldl_enter absent.2 [])
          | cons first others =>
              have kept : foreign ∉ (first :: others).dropLast :=
                fun member => below (List.mem_of_mem_dropLast member)
              refine ih absent.2 ?_ kept
              simpa using leaves
        · rename_i named
          rw [if_neg named]
          refine ih absent.2 ?_ ?_
          · simpa using leaves
          · simp [below, absent.1]

/-- The ways that never go above their start are those that stay below it wherever they start. -/
theorem staysInside_iff (way : List String) :
    staysInside way = true ↔ ∀ root, root <+: way.foldl enter root := by
  constructor
  · intro inside root
    obtain ⟨depth, found⟩ := Option.isSome_iff_exists.mp inside
    obtain ⟨deeper, ended⟩ := @foldl_enter_of_deepen way depth root [] found
    rw [List.append_nil] at ended
    rw [ended]
    exact List.prefix_append root deeper
  · intro stays
    by_contra leaves
    have none_left : way.foldlM deepen ([] : List String).length = none := by
      simpa [staysInside] using leaves
    obtain ⟨foreign, apart⟩ := Infinite.exists_notMem_finset way.toFinset
    have absent := mt List.mem_toFinset.mpr apart
    refine not_mem_of_leaves absent none_left List.not_mem_nil ?_
    exact (stays [foreign]).subset (List.mem_singleton_self foreign)

end Descent

end TypedClient.Path

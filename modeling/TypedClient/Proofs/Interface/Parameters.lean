import Mathlib.Data.List.Perm.Subperm
import Mathlib.Data.List.Zip
import TypedClient.Proofs.Distinct
import TypedClient.Proofs.Interface.Pieces
import TypedClient.Proofs.Text.Trim
import TypedClient.Proofs.TypeExpr.Replace

/-!
Parameters of a generic interface and the arguments that they stand for. The arguments that its
fields use get the parameters in the order of first use, and putting each argument where its
parameter stands gives the fields without parameters.
-/

namespace TypedClient

section Tables

variable {keys values : List String} {key value : String}

theorem lookup_of_mem {pairs : List (String × String)} (distinct : (pairs.map Prod.fst).Nodup)
    (member : (key, value) ∈ pairs) : pairs.lookup key = some value := by
  induction pairs with
  | nil => cases member
  | cons pair rest ih =>
      obtain ⟨new, distinct⟩ := List.nodup_cons.mp distinct
      rcases List.mem_cons.mp member with rfl | member
      · simp
      · have differs : key ≠ pair.1 := by
          rintro rfl
          exact new (List.mem_map.mpr ⟨_, member, rfl⟩)
        rw [List.lookup_cons, beq_eq_false_iff_ne.mpr differs]
        exact ih distinct member

variable (same : keys.length = values.length)
include same

theorem lookup_zip_of_mem (member : key ∈ keys) :
    ∃ value ∈ values, (keys.zip values).lookup key = some value := by
  rw [← List.map_fst_zip (Nat.le_of_eq same)] at member
  obtain ⟨pair, inside, rfl⟩ := List.mem_map.mp member
  have found : ((keys.zip values).lookup pair.1).isSome := by
    rw [List.lookup_isSome_iff]
    exact ⟨pair, inside, by simp⟩
  obtain ⟨value, found⟩ := Option.isSome_iff_exists.mp found
  exact ⟨value, (List.of_mem_zip (mem_of_lookup found)).2, found⟩

theorem lookup_zip_swap (distinct : values.Nodup)
    (found : (keys.zip values).lookup key = some value) :
    (values.zip keys).lookup value = some key := by
  apply lookup_of_mem
  · rw [List.map_fst_zip (Nat.le_of_eq same.symm)]
    exact distinct
  · rw [← List.zip_swap]
    exact List.mem_map.mpr ⟨(key, value), mem_of_lookup found, rfl⟩

end Tables

theorem lookup_zip_of_not_mem {keys values : List String} {key : String} (new : key ∉ keys) :
    (keys.zip values).lookup key = none := by
  rw [List.lookup_eq_none_iff]
  rintro ⟨other, value⟩ member
  rw [bne_iff_ne]
  rintro rfl
  exact new (List.of_mem_zip member).1

/-- The parameters of so many arguments. -/
def firstParameters (count : Nat) : List String := parameterNames.take count

theorem length_firstParameters {count : Nat} (few : count ≤ parameterNames.length) :
    (firstParameters count).length = count := by
  rw [firstParameters, List.length_take, Nat.min_eq_left few]

theorem nodup_firstParameters (count : Nat) : (firstParameters count).Nodup :=
  List.Nodup.sublist (List.take_sublist _ _) (by decide)

def parameterTable (used : List String) : List (String × String) :=
  used.zip (firstParameters used.length)

namespace Generics

def inUse (arguments used : List String) : Generics := ⟨arguments, parameterTable used⟩

theorem ofTypeName_eq (typeName : String) :
    ofTypeName typeName = inUse (ofTypeName typeName).arguments [] := rfl

end Generics

theorem splitMarks_spec (text : List Char) :
    ∃ depth, (Generics.splitMarks text).2 = (List.replicate depth ['[', ']']).flatten ∧
      text = (List.replicate depth [']', '[']).flatten ++ (Generics.splitMarks text).1 := by
  fun_induction Generics.splitMarks text with
  | case1 c rest body marks split ih =>
      obtain ⟨depth, brackets, whole⟩ := ih
      simp only [split] at brackets whole
      refine ⟨depth + 1, ?_, ?_⟩
      · simp only [List.replicate_succ, List.flatten_cons, brackets, List.cons_append,
          List.nil_append]
      · simp only [List.replicate_succ, List.flatten_cons, ← whole, List.cons_append,
          List.nil_append]
  | case2 text => exact ⟨0, rfl, rfl⟩

theorem argumentOf?_spec {generics : Generics} {type argument marks : String}
    (found : generics.argumentOf? type = some (argument, marks)) :
    argument ∈ generics.arguments ∧ ∃ depth, marks = TypeNode.arraySuffix depth ∧
      type = argument ++ TypeNode.arraySuffix depth := by
  unfold Generics.argumentOf? at found
  split at found
  · rename_i whole
    cases found
    exact ⟨by simpa using whole, 0, rfl, by simp [TypeNode.arraySuffix]⟩
  · obtain ⟨depth, brackets, turned⟩ := splitMarks_spec type.toList.reverse
    generalize Generics.splitMarks type.toList.reverse = parts at found brackets turned
    obtain ⟨body, suffix⟩ := parts
    simp only at found brackets turned
    split at found
    · rename_i based
      cases found
      refine ⟨?_, depth, ?_, ?_⟩
      · simp only [Bool.and_eq_true, List.contains_iff_mem] at based
        exact based.2
      · rw [brackets, TypeNode.arraySuffix]
      · apply String.toList_injective
        have straight := congrArg List.reverse turned
        rw [List.reverse_reverse, List.reverse_append, List.reverse_flatten, List.map_replicate,
          List.reverse_replicate] at straight
        rw [String.toList_append, String.toList_ofList, TypeNode.arraySuffix, String.toList_ofList]
        exact straight
    · cases found

namespace Generics

/-- The argument that a call asks for, a type and whether it comes by reference, with the array
marks behind it. A base type counts only if it comes by reference. -/
def asked? (arguments : List String) (call : String × Bool) : Option (String × String) :=
  (argumentOf? { arguments } call.1).filter fun found =>
    !(isBaseType (replaceText "[]" "" found.1) && !call.2)

/-- The answer to a call when arguments have their parameters. -/
def answer (arguments : List String) (table : List (String × String)) (call : String × Bool) :
    Option String :=
  (asked? arguments call).bind fun found => (table.lookup found.1).map (· ++ found.2)

def respond (generics : Generics) (call : String × Bool) : Option String × Generics :=
  match generics.substitute call.1 call.2 with
  | some (answer, later) => (some answer, later)
  | none => (none, generics)

end Generics

namespace Piece

/-- The argument that a type is built on, with the array marks behind it; a base type counts only
if it comes by reference. -/
def argument? (arguments : List String) : Piece → Option (String × String)
  | fixed _ => none
  | type text refs =>
    (Generics.argumentOf? { arguments } text).filter fun found =>
      !(isBaseType (replaceText "[]" "" found.1) && refs.isEmpty)

/-- The piece with parameters for arguments. -/
def parameterized (arguments : List String) (table : List (String × String)) : Piece → Piece
  | fixed text => fixed text
  | type text refs =>
    match argument? arguments (type text refs) with
    | some (argument, marks) => type ((table.lookup argument).getD argument ++ marks) refs
    | none => type text refs

/-- The call that is made for a type. -/
def call? : Piece → Option (String × Bool)
  | fixed _ => none
  | type text refs => some (text, !refs.isEmpty)

/-- The names in a type. -/
def names : Piece → List String
  | fixed _ => []
  | type text _ => namesIn text

/-- The piece with other texts for the names in its type. -/
def replaceNames (replacement : List (String × String)) : Piece → Piece
  | fixed text => fixed text
  | type text refs => type (TypedClient.replaceNames replacement text) refs

theorem argument?_spec {arguments refs : List String} {text argument marks : String}
    (found : argument? arguments (type text refs) = some (argument, marks)) :
    argument ∈ arguments ∧ ∃ depth, marks = TypeNode.arraySuffix depth ∧
      text = argument ++ TypeNode.arraySuffix depth := by
  rw [argument?, Option.filter_eq_some_iff] at found
  exact argumentOf?_spec found.1

theorem argument?_type (arguments refs : List String) (text : String) :
    (type text refs).argument? arguments = Generics.asked? arguments (text, !refs.isEmpty) := by
  simp only [argument?, Generics.asked?, Bool.not_not]

theorem text_parameterized (arguments refs : List String) (table : List (String × String))
    (text : String) : ((type text refs).parameterized arguments table).text =
      (Generics.answer arguments table (text, !refs.isEmpty)).getD text := by
  rw [parameterized, Generics.answer, ← argument?_type]
  cases found : (type text refs).argument? arguments with
  | none => rfl
  | some pair =>
      obtain ⟨argument, marks⟩ := pair
      obtain ⟨-, depth, rfl, whole⟩ := argument?_spec found
      simp only [Option.bind_some, Piece.text]
      cases table.lookup argument with
      | none => exact whole.symm
      | some parameter => rfl

theorem parameterized_of_unused {piece : Piece} {arguments : List String}
    {table : List (String × String)} (unused : piece.argument? arguments = none) :
    piece.parameterized arguments table = piece := by
  cases piece with
  | fixed text => rfl
  | type text refs => rw [parameterized, unused]

end Piece

structure Usable (arguments used : List String) : Prop where
  distinct : used.Nodup
  known : used ⊆ arguments

namespace Usable

variable {arguments used more : List String}

theorem nil : Usable arguments [] := ⟨.nil, List.nil_subset _⟩

theorem length_le (usable : Usable arguments used) : used.length ≤ arguments.length :=
  (usable.distinct.subperm usable.known).length_le

theorem append (usable : Usable arguments used) (known : more ⊆ arguments) :
    Usable arguments (used ++ more).eraseDups where
  distinct := nodup_eraseDups _
  known := fun _ member =>
    List.append_subset.mpr ⟨usable.known, known⟩ (List.mem_eraseDups.mp member)

end Usable

/-- The arguments that the types of pieces are built on, one for each such type. -/
def argumentsIn (arguments : List String) (pieces : List Piece) : List String :=
  (pieces.filterMap (Piece.argument? arguments)).map Prod.fst

def argumentsAsked (arguments : List String) (calls : List (String × Bool)) : List String :=
  (calls.filterMap (Generics.asked? arguments)).map Prod.fst

section Run

variable {arguments used : List String}

theorem argumentsIn_append (front back : List Piece) :
    argumentsIn arguments (front ++ back) =
      argumentsIn arguments front ++ argumentsIn arguments back := by
  rw [argumentsIn, List.filterMap_append, List.map_append]
  rfl

theorem argumentsAsked_append (front back : List (String × Bool)) :
    argumentsAsked arguments (front ++ back) =
      argumentsAsked arguments front ++ argumentsAsked arguments back := by
  rw [argumentsAsked, List.filterMap_append, List.map_append]
  rfl

theorem argumentsAsked_subset (calls : List (String × Bool)) :
    argumentsAsked arguments calls ⊆ arguments := by
  intro argument member
  obtain ⟨found, inside, rfl⟩ := List.mem_map.mp member
  obtain ⟨call, -, own⟩ := List.mem_filterMap.mp inside
  exact (argumentOf?_spec (Option.filter_eq_some_iff.mp own).1).1

theorem argumentsIn_eq (pieces : List Piece) :
    argumentsIn arguments pieces = argumentsAsked arguments (pieces.filterMap Piece.call?) := by
  rw [argumentsIn, argumentsAsked, List.filterMap_filterMap]
  congr 2
  funext piece
  cases piece with
  | fixed text => rfl
  | type text refs => exact Piece.argument?_type arguments refs text

theorem argumentsIn_subset (pieces : List Piece) : argumentsIn arguments pieces ⊆ arguments := by
  rw [argumentsIn_eq]
  exact argumentsAsked_subset _

theorem parameterTable_append (few : used.length ≤ parameterNames.length) (more : List String) :
    parameterTable (used ++ more) = parameterTable used ++
      more.zip ((parameterNames.drop used.length).take more.length) := by
  rw [parameterTable, List.length_append, firstParameters, List.take_add]
  exact List.zip_append (length_firstParameters few).symm

theorem parameterTable_append_single {argument : String}
    (room : used.length < parameterNames.length) :
    parameterTable (used ++ [argument]) =
      parameterTable used ++ [(argument, parameterNames[used.length])] := by
  have next : (parameterNames.drop used.length).take 1 = [parameterNames[used.length]] := by
    rw [List.drop_eq_getElem_cons room]
    rfl
  rw [parameterTable_append (Nat.le_of_lt room), List.length_singleton, next]
  rfl

theorem lookup_parameterTable_new {argument : String} (new : argument ∉ used)
    (room : used.length < parameterNames.length) :
    (parameterTable (used ++ [argument])).lookup argument = some parameterNames[used.length] := by
  have unknown : (parameterTable used).lookup argument = none := lookup_zip_of_not_mem new
  rw [parameterTable_append_single room, List.lookup_append, unknown]
  simp

theorem lookup_parameterTable {argument : String} (few : used.length ≤ parameterNames.length)
    (member : argument ∈ used) : ∃ parameter ∈ firstParameters used.length,
      (parameterTable used).lookup argument = some parameter :=
  lookup_zip_of_mem (length_firstParameters few).symm member

theorem lookup_parameterTable_extended {argument : String} {later : List String}
    (few : used.length ≤ parameterNames.length) (extended : used <+: later)
    (member : argument ∈ used) :
    (parameterTable later).lookup argument = (parameterTable used).lookup argument := by
  obtain ⟨more, rfl⟩ := extended
  obtain ⟨parameter, -, found⟩ := lookup_parameterTable few member
  rw [parameterTable_append few, List.lookup_append, found, Option.some_or]

/-- The arguments that get a parameter when some are asked for one after another. -/
def admitted (asked : List String) : List String := asked.eraseDups.take parameterNames.length

section Admitted

variable {asked : List String} {argument : String}

theorem length_admitted_le (asked : List String) :
    (admitted asked).length ≤ parameterNames.length := by
  rw [admitted, List.length_take]
  exact Nat.min_le_left _ _

theorem nodup_admitted (asked : List String) : (admitted asked).Nodup :=
  (nodup_eraseDups asked).sublist (List.take_sublist _ _)

theorem admitted_subset (asked : List String) : admitted asked ⊆ asked :=
  fun _ member => List.mem_eraseDups.mp (List.mem_of_mem_take member)

theorem admitted_extends (asked more : List String) : admitted asked <+: admitted (asked ++ more) :=
  (eraseDups_front asked more).take _

theorem admitted_of_few (known : asked ⊆ arguments)
    (few : arguments.length ≤ parameterNames.length) : admitted asked = asked.eraseDups := by
  have inside : asked.eraseDups ⊆ arguments := fun _ member => known (List.mem_eraseDups.mp member)
  have bound := ((nodup_eraseDups asked).subperm inside).length_le
  exact List.take_of_length_le (Nat.le_trans bound few)

/-- When an argument gets no parameter they are all in use, and stay so. -/
theorem admitted_full (known : argument ∈ asked) (left : argument ∉ admitted asked)
    (more : List String) : admitted (asked ++ more) = admitted asked ∧
      (admitted asked).length = parameterNames.length := by
  have inside : argument ∈ asked.eraseDups := List.mem_eraseDups.mpr known
  have full : parameterNames.length ≤ asked.eraseDups.length := by
    by_contra short
    rw [admitted, List.take_of_length_le (Nat.le_of_not_le short)] at left
    exact left inside
  refine ⟨?_, by rw [admitted, List.length_take, Nat.min_eq_left full]⟩
  rw [admitted, admitted, List.eraseDups_append, List.take_append_of_le_length full]

theorem admitted_append_single (asked : List String) (argument : String) :
    admitted (asked ++ [argument]) =
      if argument ∈ admitted asked ∨ (admitted asked).length = parameterNames.length
      then admitted asked else admitted asked ++ [argument] := by
  by_cases known : argument ∈ asked
  · have same : admitted (asked ++ [argument]) = admitted asked := by
      rw [admitted, eraseDups_append_known known, admitted]
    by_cases member : argument ∈ admitted asked
    · rw [same, if_pos (.inl member)]
    · rw [same, if_pos (.inr (admitted_full known member []).2)]
  · have new : argument ∉ admitted asked := fun member => known (admitted_subset asked member)
    rw [admitted, eraseDups_append_new known]
    by_cases full : parameterNames.length ≤ asked.eraseDups.length
    · have length : (admitted asked).length = parameterNames.length := by
        rw [admitted, List.length_take, Nat.min_eq_left full]
      rw [if_pos (.inr length), List.take_append_of_le_length full, admitted]
    · have short := Nat.lt_of_not_le full
      have all : admitted asked = asked.eraseDups := List.take_of_length_le (Nat.le_of_lt short)
      rw [all] at new ⊢
      rw [if_neg (not_or.mpr ⟨new, Nat.ne_of_lt short⟩), List.take_of_length_le]
      rw [List.length_append, List.length_singleton]
      exact short

/-- An argument that gets no parameter changes nothing. -/
theorem admitted_of_left
    (left : (parameterTable (admitted (asked ++ [argument]))).lookup argument = none) :
    admitted (asked ++ [argument]) = admitted asked := by
  by_cases member : argument ∈ admitted (asked ++ [argument])
  · obtain ⟨parameter, -, listed⟩ := lookup_parameterTable (length_admitted_le _) member
    cases left.symm.trans listed
  · rw [admitted_append_single] at member ⊢
    split
    · rfl
    · rename_i more
      rw [if_neg more] at member
      exact absurd (List.mem_append_right _ (List.mem_singleton_self _)) member

theorem lookup_admitted_append (known : argument ∈ asked) (more : List String) :
    (parameterTable (admitted (asked ++ more))).lookup argument =
      (parameterTable (admitted asked)).lookup argument := by
  by_cases member : argument ∈ admitted asked
  · exact lookup_parameterTable_extended (length_admitted_le asked) (admitted_extends asked more)
      member
  · rw [(admitted_full known member more).1]

theorem answer_admitted {call : String × Bool} (own : argumentsAsked arguments [call] ⊆ asked)
    (more : List String) :
    Generics.answer arguments (parameterTable (admitted (asked ++ more))) call =
      Generics.answer arguments (parameterTable (admitted asked)) call := by
  cases found : Generics.asked? arguments call with
  | none => rw [Generics.answer, Generics.answer, found, Option.bind_none, Option.bind_none]
  | some pair =>
      have member : pair.1 ∈ asked := own (by simp [argumentsAsked, found])
      simp only [Generics.answer, found, Option.bind_some, lookup_admitted_append member]

end Admitted

theorem text_parameterized_admitted {asked : List String} {piece : Piece}
    (own : argumentsIn arguments [piece] ⊆ asked) (more : List String) :
    (piece.parameterized arguments (parameterTable (admitted (asked ++ more)))).text =
      (piece.parameterized arguments (parameterTable (admitted asked))).text := by
  cases piece with
  | fixed text => rfl
  | type text refs =>
      rw [argumentsIn_eq] at own
      rw [Piece.text_parameterized, Piece.text_parameterized, answer_admitted own]

namespace Generics

theorem assign_known {argument parameter : String}
    (known : (parameterTable used).lookup argument = some parameter) :
    (inUse arguments used).assign argument = some (parameter, inUse arguments used) := by
  rw [assign, inUse, known]

theorem assign_new {argument : String} (new : argument ∉ used)
    (room : used.length < parameterNames.length) :
    (inUse arguments used).assign argument =
      some (parameterNames[used.length], inUse arguments (used ++ [argument])) := by
  have unknown : (parameterTable used).lookup argument = none := lookup_zip_of_not_mem new
  have length : (parameterTable used).length = used.length := by
    rw [parameterTable, List.length_zip, length_firstParameters (Nat.le_of_lt room), Nat.min_self]
  simp only [assign, inUse, unknown, length, List.getElem?_eq_getElem room,
    parameterTable_append_single room]

theorem assign_full {argument : String} (new : argument ∉ used)
    (full : used.length = parameterNames.length) :
    (inUse arguments used).assign argument = none := by
  have unknown : (parameterTable used).lookup argument = none := lookup_zip_of_not_mem new
  have length : (parameterTable used).length = parameterNames.length := by
    rw [parameterTable, List.length_zip, length_firstParameters (Nat.le_of_eq full), full,
      Nat.min_self]
  have last : parameterNames[parameterNames.length]? = none := by simp
  simp only [assign, inUse, unknown, length, last]

/-- An argument that is asked for is in use then, if it has a parameter. -/
theorem assign_admitted (asked : List String) (argument : String) :
    let later := admitted (asked ++ [argument])
    (inUse arguments (admitted asked)).assign argument =
      ((parameterTable later).lookup argument).map fun parameter =>
        (parameter, inUse arguments later) := by
  intro later
  have bound := length_admitted_le asked
  by_cases member : argument ∈ admitted asked
  · have same : later = admitted asked := by
      rw [show later = _ from admitted_append_single asked argument, if_pos (.inl member)]
    obtain ⟨parameter, -, listed⟩ := lookup_parameterTable bound member
    rw [same, listed]
    exact assign_known listed
  · by_cases full : (admitted asked).length = parameterNames.length
    · have same : later = admitted asked := by
        rw [show later = _ from admitted_append_single asked argument, if_pos (.inr full)]
      rw [same, assign_full member full, parameterTable, lookup_zip_of_not_mem member]
      rfl
    · have more : later = admitted asked ++ [argument] := by
        rw [show later = _ from admitted_append_single asked argument,
          if_neg (not_or.mpr ⟨member, full⟩)]
      have room := Nat.lt_of_le_of_ne bound full
      rw [more, assign_new member room, lookup_parameterTable_new member room]
      rfl

theorem substitute_eq (generics : Generics) (call : String × Bool) :
    generics.substitute call.1 call.2 = (asked? generics.arguments call).bind fun found =>
      (generics.assign found.1).map fun answer => (answer.1 ++ found.2, answer.2) := by
  have same : generics.argumentOf? call.1 =
      argumentOf? { arguments := generics.arguments } call.1 :=
    rfl
  rw [substitute, asked?, same]
  cases argumentOf? { arguments := generics.arguments } call.1 with
  | none => rfl
  | some found =>
      dsimp only
      by_cases primitive : (isBaseType (replaceText "[]" "" found.1) && !call.2) = true
      · rw [if_pos primitive, Option.filter_some_neg (by simp [primitive])]
        rfl
      · rw [if_neg primitive, Option.filter_some_pos (by simp [primitive])]
        rfl

/-- A call adds its argument to those that are asked for, and is answered with its parameter if it
gets one. -/
theorem respond_admitted (asked : List String) (call : String × Bool) :
    let later := admitted (asked ++ argumentsAsked arguments [call])
    (inUse arguments (admitted asked)).respond call =
      (answer arguments (parameterTable later) call, inUse arguments later) := by
  have given : (inUse arguments (admitted asked)).arguments = arguments := rfl
  dsimp only
  rw [respond, substitute_eq, given, answer]
  cases found : asked? arguments call with
  | none =>
      have none : argumentsAsked arguments [call] = [] := by simp [argumentsAsked, found]
      rw [none, List.append_nil]
      rfl
  | some own =>
      have single : argumentsAsked arguments [call] = [own.1] := by simp [argumentsAsked, found]
      rw [single, Option.bind_some, Option.bind_some, assign_admitted]
      cases listed : (parameterTable (admitted (asked ++ [own.1]))).lookup own.1 with
      | some parameter => rfl
      | none =>
          rw [admitted_of_left listed]
          rfl

theorem print_type (generics : Generics) (text : String) (refs : List String) :
    (generics.print (.type text refs)).1.text =
        (generics.respond (text, !refs.isEmpty)).1.getD text ∧
      (generics.print (.type text refs)).2 = (generics.respond (text, !refs.isEmpty)).2 := by
  rw [print, respond]
  cases generics.substitute text (!refs.isEmpty) with
  | none => exact ⟨rfl, rfl⟩
  | some answer => exact ⟨rfl, rfl⟩

/-- A piece adds its argument to those that are asked for, and is printed with its parameter if it
gets one. -/
theorem print_admitted (asked : List String) (piece : Piece) :
    let later := admitted (asked ++ argumentsIn arguments [piece])
    ((inUse arguments (admitted asked)).print piece).1.text =
        (piece.parameterized arguments (parameterTable later)).text ∧
      ((inUse arguments (admitted asked)).print piece).2 = inUse arguments later := by
  cases piece with
  | fixed text =>
      have none : argumentsIn arguments [.fixed text] = [] := rfl
      rw [none, List.append_nil]
      exact ⟨rfl, rfl⟩
  | type text refs =>
      obtain ⟨printed, after⟩ := print_type (inUse arguments (admitted asked)) text refs
      dsimp only
      rw [printed, after, respond_admitted, Piece.text_parameterized, argumentsIn_eq]
      exact ⟨rfl, rfl⟩

/-- Pieces that are printed one after another have the parameters that are in use at the end. -/
theorem fill_admitted (asked : List String) (pieces : List Piece) :
    let later := admitted (asked ++ argumentsIn arguments pieces)
    ((inUse arguments (admitted asked)).fill pieces).1.text =
        spelled (pieces.map (Piece.parameterized arguments (parameterTable later))) ∧
      ((inUse arguments (admitted asked)).fill pieces).2 = inUse arguments later := by
  induction pieces generalizing asked with
  | nil => simp [fill, spelled, argumentsIn]
  | cons piece rest ih =>
      obtain ⟨own, after⟩ := @print_admitted arguments asked piece
      obtain ⟨others, last⟩ := ih (asked ++ argumentsIn arguments [piece])
      have whole : argumentsIn arguments [piece] ++ argumentsIn arguments rest =
          argumentsIn arguments (piece :: rest) := (argumentsIn_append [piece] rest).symm
      rw [List.append_assoc, whole] at others last
      have own' := List.subset_append_right asked (argumentsIn arguments [piece])
      have printed := text_parameterized_admitted own' (argumentsIn arguments rest)
      rw [List.append_assoc, whole] at printed
      simp only [fill, after, others, last, Code.append, own, List.map_cons, spelled_cons, printed]
      exact ⟨trivial, trivial⟩

theorem fill_inUse (few : arguments.length ≤ parameterNames.length)
    (usable : Usable arguments used) (pieces : List Piece) :
    let later := (used ++ argumentsIn arguments pieces).eraseDups
    ((inUse arguments used).fill pieces).1.text =
        spelled (pieces.map (Piece.parameterized arguments (parameterTable later))) ∧
      ((inUse arguments used).fill pieces).2 = inUse arguments later := by
  have before : admitted used = used := by
    rw [admitted_of_few usable.known few, eraseDups_of_nodup usable.distinct]
  have all : used ++ argumentsIn arguments pieces ⊆ arguments :=
    List.append_subset.mpr ⟨usable.known, argumentsIn_subset pieces⟩
  have filled := @fill_admitted arguments used pieces
  rw [before, admitted_of_few all few] at filled
  exact filled

end Generics

end Run

theorem plain_of_arraySuffix (depth : Nat) :
    ∀ c ∈ (TypeNode.arraySuffix depth).toList, Naming.isFieldChar c = false ∧ c ≠ '\'' := by
  have brackets : ∀ c ∈ ['[', ']'], Naming.isFieldChar c = false ∧ c ≠ '\'' :=
    Text.forall_of_all (by decide)
  intro c member
  rw [TypeNode.arraySuffix, String.toList_ofList, List.mem_flatten] at member
  obtain ⟨mark, repeated, member⟩ := member
  rw [List.eq_of_mem_replicate repeated] at member
  exact brackets c member

theorem isName_of_parameter : ∀ parameter ∈ parameterNames, TypeExpr.isName parameter = true := by
  decide

/-- The arguments can be put back where their parameters stand. -/
theorem Piece.replaceNames_parameterized {arguments used : List String} {piece : Piece}
    (few : used.length ≤ parameterNames.length) (own : argumentsIn arguments [piece] ⊆ used)
    (free : piece.argument? arguments = none →
      ∀ name ∈ piece.names, name ∉ firstParameters used.length) :
    (piece.parameterized arguments (parameterTable used)).replaceNames
      ((firstParameters used.length).zip used) = piece := by
  cases piece with
  | fixed text => rfl
  | type text refs =>
      cases found : (type text refs).argument? arguments with
      | none =>
          have same :
              TypedClient.replaceNames ((firstParameters used.length).zip used) text = text :=
            replaceNames_of_absent fun name member =>
              lookup_zip_of_not_mem (free found name member)
          simp only [parameterized, found, replaceNames, same]
      | some pair =>
          obtain ⟨argument, marks⟩ := pair
          obtain ⟨-, depth, rfl, whole⟩ := argument?_spec found
          obtain ⟨parameter, member, listed⟩ :=
            lookup_parameterTable few (own (a := argument) (by simp [argumentsIn, found]))
          have back := lookup_zip_swap (length_firstParameters few).symm (nodup_firstParameters _)
            listed
          have named := isName_of_parameter parameter (List.mem_of_mem_take member)
          have same := replaceNames_name named (plain_of_arraySuffix depth) back
          rw [parameterized, found]
          simp only [replaceNames, listed, Option.getD_some, same, ← whole]

theorem Piece.map_replaceNames_parameterized {arguments used : List String} {pieces : List Piece}
    (few : used.length ≤ parameterNames.length) (own : argumentsIn arguments pieces ⊆ used)
    (free : ∀ piece ∈ pieces, piece.argument? arguments = none →
      ∀ name ∈ piece.names, name ∉ firstParameters used.length) :
    (pieces.map (parameterized arguments (parameterTable used))).map
      (replaceNames ((firstParameters used.length).zip used)) = pieces := by
  induction pieces with
  | nil => rfl
  | cons piece rest ih =>
      rw [← List.singleton_append, argumentsIn_append, List.append_subset] at own
      rw [List.map_cons, List.map_cons, replaceNames_parameterized few own.1 (free piece (by simp)),
        ih own.2 fun other member => free other (by simp [member])]

theorem Piece.argument?_nil (piece : Piece) : piece.argument? [] = none := by
  cases piece with
  | fixed text => rfl
  | type text refs =>
      rw [Option.eq_none_iff_forall_ne_some]
      rintro ⟨argument, marks⟩ found
      exact absurd (argument?_spec found).1 List.not_mem_nil

theorem Generics.names_inUse {arguments used : List String}
    (few : used.length ≤ parameterNames.length) :
    (inUse arguments used).names = firstParameters used.length :=
  List.map_snd_zip (Nat.le_of_eq (length_firstParameters few))

theorem Generics.fill_plain (pieces : List Piece) :
    ∃ body, fill {} pieces = (body, {}) ∧ body.text = spelled pieces := by
  have unused : argumentsIn [] pieces = [] := List.subset_nil.mp (argumentsIn_subset pieces)
  have same : pieces.map (Piece.parameterized [] (parameterTable [])) = pieces := by
    rw [List.map_congr_left fun piece _ => Piece.parameterized_of_unused piece.argument?_nil,
      List.map_id']
  obtain ⟨text, last⟩ := @fill_inUse [] [] (Nat.zero_le _) .nil pieces
  simp only [unused, List.append_nil, List.eraseDups_nil, same] at text last
  exact ⟨_, Prod.ext rfl last, text⟩

end TypedClient

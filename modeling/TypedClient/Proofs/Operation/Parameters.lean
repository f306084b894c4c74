import Mathlib.Data.List.Pairwise
import TypedClient.Proofs.Distinct
import TypedClient.Proofs.Operation.Source
import TypedClient.Proofs.Value.Entries

/-!
The parameters of an operation: those of its path in front of its own, of each name and place the
last. A parameter that is a reference has neither, so that all references count as the same one.
-/

namespace TypedClient

section Alike

theorem sameParameter_self (key : Scalar × Scalar) : sameParameter key key = true := by
  simp [sameParameter, Scalar.same]

theorem sameParameter_comm (a b : Scalar × Scalar) : sameParameter a b = sameParameter b a := by
  rw [sameParameter, sameParameter, Scalar.same_comm a.1, Scalar.same_comm a.2]

theorem sameParameter_congr (a b c : Scalar × Scalar) (both : sameParameter a b = true) :
    sameParameter a c = sameParameter b c := by
  obtain ⟨name, place⟩ := Bool.and_eq_true_iff.mp both
  rw [sameParameter, sameParameter, Scalar.same_congr _ _ _ name, Scalar.same_congr _ _ _ place]

def alike (p q : Entries) : Bool :=
  match parameterKey p, parameterKey q with
  | .ok a, .ok b => sameParameter a b
  | _, _ => false

variable {p q : Entries} {key other : Scalar × Scalar}

theorem alike_eq (named : parameterKey p = .ok key) (named' : parameterKey q = .ok other) :
    alike p q = sameParameter key other := by
  rw [alike, named, named']

theorem alike_iff : alike p q = true ↔
    ∃ a b, parameterKey p = .ok a ∧ parameterKey q = .ok b ∧ sameParameter a b = true := by
  unfold alike
  split
  · rename_i a b named named'
    simp [named, named']
  · rename_i strange
    constructor
    · rintro ⟨⟩
    · rintro ⟨a, b, named, named', -⟩
      exact absurd named' (strange a b named)

theorem alike_symm (both : alike p q = true) : alike q p = true := by
  obtain ⟨a, b, named, named', same⟩ := alike_iff.mp both
  rw [alike_eq named' named, sameParameter_comm, same]

theorem alike_comm (p q : Entries) : alike p q = alike q p := by
  rw [Bool.eq_iff_iff]
  exact ⟨alike_symm, alike_symm⟩

theorem alike_congr (p q r : Entries) (both : alike p q = true) : alike p r = alike q r := by
  obtain ⟨a, b, named, named', same⟩ := alike_iff.mp both
  cases third : parameterKey r with
  | error failure => simp [alike, third]
  | ok c => rw [alike_eq named third, alike_eq named' third, sameParameter_congr a b c same]

end Alike

def putAlike : List Entries → Entries → List Entries
  | [], parameter => [parameter]
  | first :: rest, parameter =>
    if alike first parameter then parameter :: rest else first :: putAlike rest parameter

def LastAlike (met : List Entries) (parameter : Entries) : Prop :=
  ∃ before after, met = before ++ parameter :: after ∧
    ∀ later ∈ after, alike parameter later = false

structure MergedParameters (met kept : List Entries) : Prop where
  last : ∀ parameter, parameter ∈ kept ↔ LastAlike met parameter
  apart : kept.Pairwise fun first second => alike first second = false
  /-- They stand in the order in which their names and places are first met. -/
  order : List.Forall₂ (fun first parameter => alike first parameter = true)
    (met.eraseDupsBy alike) kept

section Put

variable {kept met : List Entries} {parameter other : Entries}

theorem putAlike_eq (kept : List Entries) (parameter : Entries) :
    (∃ before old after, kept = before ++ old :: after ∧ alike old parameter = true ∧
      (∀ other ∈ before, alike other parameter = false) ∧
      putAlike kept parameter = before ++ parameter :: after) ∨
    ((∀ other ∈ kept, alike other parameter = false) ∧
      putAlike kept parameter = kept ++ [parameter]) := by
  induction kept with
  | nil => exact .inr ⟨by simp, rfl⟩
  | cons first rest ih =>
      cases met : alike first parameter with
      | true =>
          refine .inl ⟨[], first, rest, rfl, met, by simp, ?_⟩
          rw [putAlike, if_pos met, List.nil_append]
      | false =>
          rw [putAlike, if_neg (by simp [met])]
          rcases ih with ⟨before, old, after, rfl, same, apart, put⟩ | ⟨apart, put⟩
          · refine .inl ⟨first :: before, old, after, rfl, same, ?_, by rw [put, List.cons_append]⟩
            exact List.forall_mem_cons.mpr ⟨met, apart⟩
          · exact .inr ⟨List.forall_mem_cons.mpr ⟨met, apart⟩, by rw [put, List.cons_append]⟩

theorem lastAlike_concat : LastAlike (met ++ [parameter]) other ↔
    other = parameter ∨ (LastAlike met other ∧ alike other parameter = false) := by
  constructor
  · rintro ⟨before, after, whole, last⟩
    rcases List.eq_nil_or_concat after with rfl | ⟨more, final, rfl⟩
    · obtain ⟨-, same⟩ := List.append_inj' whole rfl
      exact .inl (List.cons.inj same).1.symm
    · rw [List.concat_eq_append, ← List.cons_append, ← List.append_assoc] at whole
      obtain ⟨rfl, same⟩ := List.append_inj' whole rfl
      obtain rfl := (List.cons.inj same).1
      refine .inr ⟨⟨before, more, rfl, fun later inside => last later ?_⟩, last _ ?_⟩
      · simp [inside]
      · simp
  · rintro (rfl | ⟨⟨before, after, rfl, last⟩, apart⟩)
    · exact ⟨met, [], rfl, by simp⟩
    · refine ⟨before, after ++ [parameter], by simp, fun later inside => ?_⟩
      rcases List.mem_append.mp inside with inside | inside
      · exact last later inside
      · rw [List.mem_singleton.mp inside]
        exact apart

theorem mem_putAlike (apart : kept.Pairwise fun first second => alike first second = false) :
    other ∈ putAlike kept parameter ↔
      other = parameter ∨ (other ∈ kept ∧ alike other parameter = false) := by
  rcases putAlike_eq kept parameter with ⟨before, old, after, rfl, same, front, put⟩ | ⟨none, put⟩
  · -- what stands behind the one that is replaced is not like it
    have behind : ∀ other ∈ after, alike other parameter = false := by
      intro other inside
      obtain ⟨-, back, -⟩ := List.pairwise_append.mp apart
      rw [alike_comm, ← alike_congr old parameter other same]
      exact (List.pairwise_cons.mp back).1 other inside
    rw [put, List.mem_append, List.mem_append, List.mem_cons, List.mem_cons]
    constructor
    · rintro (inside | rfl | inside)
      · exact .inr ⟨.inl inside, front other inside⟩
      · exact .inl rfl
      · exact .inr ⟨.inr (.inr inside), behind other inside⟩
    · rintro (rfl | ⟨inside | rfl | inside, differs⟩)
      · exact .inr (.inl rfl)
      · exact .inl inside
      · cases differs.symm.trans same
      · exact .inr (.inr inside)
  · rw [put, List.mem_append, List.mem_singleton]
    constructor
    · rintro (inside | rfl)
      · exact .inr ⟨inside, none other inside⟩
      · exact .inl rfl
    · rintro (rfl | ⟨inside, -⟩)
      · exact .inr rfl
      · exact .inl inside

theorem alike_self (both : alike parameter other = true) : alike parameter parameter = true := by
  rw [alike_congr parameter other parameter both, alike_comm, both]

theorem exists_lastAlike (member : parameter ∈ met) (named : alike parameter parameter = true) :
    ∃ final, LastAlike met final ∧ alike parameter final = true := by
  induction met using List.reverseRecOn with
  | nil => cases member
  | append_singleton before last ih =>
      cases same : alike parameter last with
      | true => exact ⟨last, lastAlike_concat.mpr (.inl rfl), same⟩
      | false =>
          have inside : parameter ∈ before := by
            rcases List.mem_append.mp member with inside | single
            · exact inside
            · rw [List.mem_singleton.mp single, ← List.mem_singleton.mp single, named] at same
              cases same
          obtain ⟨final, found, both⟩ := ih inside
          rw [alike_congr _ _ _ both] at same
          exact ⟨final, lastAlike_concat.mpr (.inr ⟨found, same⟩), both⟩

theorem LastAlike.mem (found : LastAlike met parameter) : parameter ∈ met := by
  obtain ⟨before, after, rfl, -⟩ := found
  simp

theorem pairwise_putAlike (apart : kept.Pairwise fun first second => alike first second = false) :
    (putAlike kept parameter).Pairwise fun first second => alike first second = false := by
  rcases putAlike_eq kept parameter with ⟨before, old, after, rfl, same, front, put⟩ | ⟨none, put⟩
  · obtain ⟨ahead, back, across⟩ := List.pairwise_append.mp apart
    obtain ⟨next, behind⟩ := List.pairwise_cons.mp back
    rw [put, List.pairwise_append, List.pairwise_cons]
    refine ⟨ahead, ⟨fun other inside => ?_, behind⟩, fun first among => ?_⟩
    · rw [← alike_congr old parameter other same]
      exact next other inside
    · rw [List.forall_mem_cons]
      exact ⟨front first among, fun other inside => across first among other (by simp [inside])⟩
  · rw [put, List.pairwise_append]
    refine ⟨apart, List.pairwise_singleton _ _, fun other inside final single => ?_⟩
    rw [List.mem_singleton.mp single]
    exact none other inside

theorem forall₂_replace {relation : Entries → Entries → Prop} {firsts before after : List Entries}
    {old new : Entries} (related : List.Forall₂ relation firsts (before ++ old :: after))
    (same : ∀ first, relation first old → relation first new) :
    List.Forall₂ relation firsts (before ++ new :: after) := by
  induction before generalizing firsts with
  | nil =>
      obtain _ | ⟨own, rest⟩ := related
      exact .cons (same _ own) rest
  | cons head before ih =>
      obtain _ | ⟨own, rest⟩ := related
      exact .cons own (ih rest)

namespace MergedParameters

theorem nil : MergedParameters [] [] := by
  refine ⟨fun parameter => ⟨fun member => ?_, fun found => ?_⟩, .nil, ?_⟩
  · cases member
  · exact found.mem
  · rw [List.eraseDupsBy_nil]
    exact .nil

theorem concat (merged : MergedParameters met kept) (named : alike parameter parameter = true) :
    MergedParameters (met ++ [parameter]) (putAlike kept parameter) := by
  refine ⟨fun other => ?_, pairwise_putAlike merged.apart, ?_⟩
  · rw [mem_putAlike merged.apart, lastAlike_concat, merged.last]
  · rw [eraseDupsBy_append alike_congr]
    rcases putAlike_eq kept parameter with ⟨before, old, after, rfl, same, front, put⟩ | ⟨none, put⟩
    · have known : old ∈ met := ((merged.last old).mp (by simp)).mem
      have found : ([parameter].filter fun item => met.all fun old => !alike item old) = [] := by
        rw [List.filter_eq_nil_iff, List.forall_mem_singleton, List.all_eq_true]
        intro apart
        have differs := apart old known
        rw [alike_comm, same] at differs
        cases differs
      rw [put, found, List.eraseDupsBy_nil, List.append_nil]
      refine forall₂_replace merged.order fun first both => ?_
      rw [alike_congr first old parameter both]
      exact same
    · have new : ([parameter].filter fun item => met.all fun old => !alike item old) =
          [parameter] := by
        rw [List.filter_eq_self, List.forall_mem_singleton, List.all_eq_true]
        intro other inside
        -- the last that is like another one is kept, so that it is not like this one
        by_contra both
        have like : alike other parameter = true := by
          rw [alike_comm]
          simpa using both
        obtain ⟨final, found, follows⟩ := exists_lastAlike inside (alike_self like)
        have apart := none final ((merged.last final).mpr found)
        rw [← alike_congr other final parameter follows, like] at apart
        cases apart
      rw [put, new, List.eraseDupsBy_cons, List.filter_nil, List.eraseDupsBy_nil]
      exact List.rel_append merged.order (.cons named .nil)

theorem foldl (named : ∀ parameter ∈ met, alike parameter parameter = true) :
    MergedParameters met (met.foldl putAlike []) := by
  induction met using List.reverseRecOn with
  | nil => exact nil
  | append_singleton before last ih =>
      rw [List.foldl_append]
      exact (ih fun parameter inside => named parameter (by simp [inside])).concat
        (named last (by simp))

end MergedParameters

end Put

section Merge

variable {merged : List ((Scalar × Scalar) × Entries)} {parameter : Entries} {key : Scalar × Scalar}

def Tagged (merged : List ((Scalar × Scalar) × Entries)) : Prop :=
  ∀ entry ∈ merged, ∃ own, parameterKey entry.2 = .ok own ∧ sameParameter entry.1 own = true

theorem alike_of_key (named : parameterKey parameter = .ok key) :
    alike parameter parameter = true := by
  rw [alike_eq named named, sameParameter_self]

theorem putParameter_eq (tagged : Tagged merged) (named : parameterKey parameter = .ok key) :
    (putParameter key parameter merged).map Prod.snd =
      putAlike (merged.map Prod.snd) parameter := by
  induction merged with
  | nil => rfl
  | cons entry rest ih =>
      obtain ⟨first, old⟩ := entry
      obtain ⟨own, read, same⟩ := tagged (first, old) (by simp)
      have judged : sameParameter first key = alike old parameter := by
        rw [alike_eq read named, sameParameter_congr first own key same]
      rw [putParameter, List.map_cons, putAlike, judged]
      split
      · rfl
      · rw [List.map_cons, ih fun entry inside => tagged entry (by simp [inside])]

theorem tagged_putParameter (tagged : Tagged merged) (named : parameterKey parameter = .ok key) :
    Tagged (putParameter key parameter merged) := by
  induction merged with
  | nil =>
      intro entry single
      rw [List.mem_singleton.mp single]
      exact ⟨key, named, sameParameter_self key⟩
  | cons entry rest ih =>
      obtain ⟨own, later⟩ := List.forall_mem_cons.mp tagged
      rw [putParameter]
      split
      · rename_i met
        exact List.forall_mem_cons.mpr ⟨⟨key, named, met⟩, later⟩
      · exact List.forall_mem_cons.mpr ⟨own, ih later⟩

def parameterObjects (parameters : List Value) : List Entries :=
  parameters.filterMap fun
    | .object entries => some entries
    | _ => none

/-- The parameters are put in one after the other, each under the key that it has. -/
theorem foldlM_putParameter {parameters : List Value}
    {start : List ((Scalar × Scalar) × Entries)} (tagged : Tagged start)
    (ran : parameters.foldlM (fun merged parameter =>
      match parameter with
      | .object entries => do return putParameter (← parameterKey entries) entries merged
      | _ => .ok merged) start = .ok merged) :
    merged.map Prod.snd = (parameterObjects parameters).foldl putAlike (start.map Prod.snd) ∧
      ∀ parameter ∈ parameterObjects parameters, alike parameter parameter = true := by
  induction parameters generalizing start with
  | nil =>
      cases ran
      exact ⟨rfl, by simp [parameterObjects]⟩
  | cons first rest ih =>
      rw [List.foldlM_cons, bind_eq_ok] at ran
      obtain ⟨next, put, ran⟩ := ran
      split at put
      · rename_i entries
        obtain ⟨key, named, same⟩ := (bind_eq_ok _ _ _).mp put
        cases same
        obtain ⟨whole, keyed⟩ := ih (tagged_putParameter tagged named) ran
        rw [putParameter_eq tagged named] at whole
        exact ⟨whole, List.forall_mem_cons.mpr ⟨alike_of_key named, keyed⟩⟩
      · rename_i other
        cases put
        have skipped : parameterObjects (first :: rest) = parameterObjects rest := by
          cases first with
          | object entries => exact absurd rfl (other entries)
          | scalar _ => rfl
          | list _ => rfl
        rw [skipped]
        exact ih tagged ran

theorem merged_of_mergeParameters {parameters : List Value} {kept : List Entries}
    (ran : mergeParameters parameters = .ok (kept.map .object)) :
    MergedParameters (parameterObjects parameters) kept := by
  obtain ⟨merged, put, same⟩ := (bind_eq_ok _ _ _).mp ran
  have tagged : Tagged [] := fun entry member => by cases member
  obtain ⟨whole, named⟩ := foldlM_putParameter tagged put
  have shown : (merged.map Prod.snd).map Value.object = kept.map Value.object := by
    rw [List.map_map]
    exact Except.ok.inj same
  have own := List.map_injective_iff.mpr (fun _ _ => Value.object.inj) shown
  rw [← own, whole]
  exact MergedParameters.foldl named

end Merge

def Nameless (parameter : Entries) : Prop :=
  Entries.field parameter "name" = .null ∧ Entries.field parameter "in" = .null

/-- The parameters that a record gives. -/
def parametersOf (holder : Entries) : List Entries :=
  match Entries.field holder "parameters" with
  | .list items => parameterObjects items
  | _ => []

/-- What becomes of the parameters of a path and of the own ones of an operation on it. -/
structure Flattened (shared own kept : List Entries) : Prop where
  merged : MergedParameters (shared ++ own) kept
  /-- The names and places of the path come first. -/
  shared_first : ∃ front back, kept = front ++ back ∧
    List.Forall₂ (fun first parameter => alike first parameter = true)
      (shared.eraseDupsBy alike) front ∧ ∀ parameter ∈ back, parameter ∈ own
  own_kept : (own.Pairwise fun first second => alike first second = false) →
    ∀ parameter ∈ own, parameter ∈ kept
  /-- A parameter of the path gives way to an own one only. -/
  shared_kept : (shared.Pairwise fun first second => alike first second = false) →
    ∀ parameter ∈ shared, parameter ∈ kept ∨
      ∃ other ∈ own, other ∈ kept ∧ alike parameter other = true
  /-- Of parameters without name and place the last is left, so that none is lost just when all are
  one and the same. -/
  nameless_kept : (∀ parameter ∈ shared ++ own, Nameless parameter → parameter ∈ kept) ↔
    ∀ first ∈ shared ++ own, ∀ second ∈ shared ++ own, Nameless first → Nameless second →
      first = second

section Flattened

variable {shared own kept met : List Entries} {parameter other : Entries}

theorem parameterObjects_scalars (scalars : List Scalar) :
    parameterObjects (scalars.map .scalar) = [] := by
  rw [parameterObjects, List.filterMap_map]
  exact List.filterMap_eq_nil_iff.mpr fun _ _ => rfl

theorem parameterObjects_given {holder : Entries} {items : List Value}
    (given : (Entries.field holder "parameters").givenElements = .ok items) :
    parameterObjects items = parametersOf holder := by
  unfold parametersOf
  unfold Value.givenElements Value.elements at given
  split at given
  · split at given
    · rename_i held
      cases given
      rw [held]
    · rename_i text held
      cases given
      rw [held, ← parameterObjects_scalars (text.toList.map fun c => .text (String.singleton c)),
        List.map_map]
      rfl
    · rename_i entries held
      cases given
      rw [held, ← parameterObjects_scalars (entries.map Prod.fst), List.map_map]
      rfl
    · cases given
  · rename_i blank
    cases given
    split
    · rename_i items held
      rw [held] at blank
      have empty : items = [] := by simpa [Value.isTrue] using blank
      rw [empty]
    · rfl

theorem nameless_iff : Nameless parameter ↔ parameterKey parameter = .ok (.null, .null) := by
  unfold Nameless parameterKey
  constructor
  · rintro ⟨name, place⟩
    rw [name, place]
  · intro named
    split at named
    · rename_i name place
      cases named
      exact ⟨name, place⟩
    · cases named

theorem alike_nameless (bare : Nameless parameter) (bare' : Nameless other) :
    alike parameter other = true := by
  rw [alike_eq (nameless_iff.mp bare) (nameless_iff.mp bare'), sameParameter_self]

theorem eq_null_of_same {scalar : Scalar} (same : Scalar.null.same scalar = true) :
    scalar = .null := by
  rcases (Scalar.same_iff .null scalar).mp same with same | ⟨n, none, -⟩
  · exact same.symm
  · cases none

theorem nameless_of_alike (bare : Nameless parameter) (both : alike parameter other = true) :
    Nameless other := by
  obtain ⟨own, key, named, named', same⟩ := alike_iff.mp both
  cases named.symm.trans (nameless_iff.mp bare)
  obtain ⟨first, second⟩ := Bool.and_eq_true_iff.mp same
  rw [nameless_iff, named']
  exact congrArg Except.ok (Prod.ext (eq_null_of_same first) (eq_null_of_same second))

namespace MergedParameters

theorem own_kept (merged : MergedParameters (shared ++ own) kept)
    (apart : own.Pairwise fun first second => alike first second = false)
    (member : parameter ∈ own) : parameter ∈ kept := by
  obtain ⟨before, after, rfl⟩ := List.append_of_mem member
  obtain ⟨-, back, -⟩ := List.pairwise_append.mp apart
  refine (merged.last parameter).mpr ⟨shared ++ before, after, by simp, ?_⟩
  exact (List.pairwise_cons.mp back).1

theorem shared_kept (merged : MergedParameters (shared ++ own) kept)
    (apart : shared.Pairwise fun first second => alike first second = false)
    (member : parameter ∈ shared) :
    parameter ∈ kept ∨ ∃ other ∈ own, other ∈ kept ∧ alike parameter other = true := by
  by_cases replaced : ∃ other ∈ own, alike parameter other = true
  · obtain ⟨other, inside, same⟩ := replaced
    obtain ⟨final, ⟨before, after, rfl, last⟩, follows⟩ :=
      exists_lastAlike inside (alike_self (alike_symm same))
    have left : final ∈ kept :=
      (merged.last final).mpr ⟨shared ++ before, after, by simp, last⟩
    exact .inr ⟨final, by simp, left, (alike_congr _ _ final same).trans follows⟩
  · obtain ⟨before, after, rfl⟩ := List.append_of_mem member
    obtain ⟨-, back, -⟩ := List.pairwise_append.mp apart
    refine .inl ((merged.last parameter).mpr ⟨before, after ++ own, by simp, ?_⟩)
    intro later inside
    rcases List.mem_append.mp inside with inside | inside
    · exact (List.pairwise_cons.mp back).1 later inside
    · by_contra same
      exact replaced ⟨later, inside, by simpa using same⟩

theorem nameless_kept (merged : MergedParameters met kept) :
    (∀ parameter ∈ met, Nameless parameter → parameter ∈ kept) ↔
      ∀ first ∈ met, ∀ second ∈ met, Nameless first → Nameless second → first = second := by
  constructor
  · intro all first inside second inside' bare bare'
    by_contra differs
    have : Std.Symm fun first second => alike first second = false :=
      ⟨fun first second apart => (alike_comm second first).trans apart⟩
    have apart := merged.apart.forall (all first inside bare) (all second inside' bare') differs
    cases apart.symm.trans (alike_nameless bare bare')
  · intro single parameter inside bare
    obtain ⟨final, found, same⟩ := exists_lastAlike inside (alike_nameless bare bare)
    rw [single parameter inside final found.mem bare (nameless_of_alike bare same)]
    exact (merged.last final).mpr found

theorem shared_first (merged : MergedParameters (shared ++ own) kept) :
    ∃ front back, kept = front ++ back ∧
      List.Forall₂ (fun first parameter => alike first parameter = true)
        (shared.eraseDupsBy alike) front ∧ ∀ parameter ∈ back, parameter ∈ own := by
  have order := merged.order
  rw [eraseDupsBy_append alike_congr] at order
  refine ⟨_, _, (List.take_append_drop (shared.eraseDupsBy alike).length kept).symm, ?_, ?_⟩
  · have front := List.forall₂_take (shared.eraseDupsBy alike).length order
    rwa [List.take_left] at front
  · have back := List.forall₂_drop (shared.eraseDupsBy alike).length order
    rw [List.drop_left] at back
    intro parameter inside
    obtain ⟨first, among, same⟩ := partner_of_mem back inside
    -- the first of its name and place is not among those of the path, nor is one that is like it
    have new := (List.mem_filter.mp (mem_of_mem_eraseDupsBy among)).2
    rcases List.mem_append.mp ((merged.last parameter).mp (List.mem_of_mem_drop inside)).mem with
      outer | own
    · have apart := List.all_eq_true.mp new parameter outer
      rw [same] at apart
      cases apart
    · exact own

theorem flattened (merged : MergedParameters (shared ++ own) kept) : Flattened shared own kept where
  merged := merged
  shared_first := merged.shared_first
  own_kept apart _ member := merged.own_kept apart member
  shared_kept apart _ member := merged.shared_kept apart member
  nameless_kept := merged.nameless_kept

end MergedParameters

end Flattened

/-- The parameters of an operation are those of its path and its own ones, of each name and place
the last. -/
theorem parameters_merged {document : Entries} {keyword : Option String}
    {operations : List Operation} {operation : Operation}
    (found : searchOperations document keyword = .ok operations) (member : operation ∈ operations) :
    ∃ item own, operation.Source document item own ∧
      Flattened (parametersOf item) (parametersOf own) operation.parameters := by
  obtain ⟨item, own, source⟩ := source_of_searchOperations found member
  obtain ⟨common, special, shared, given, ran⟩ := source.parameters
  have merged := merged_of_mergeParameters ran
  rw [parameterObjects, List.filterMap_append] at merged
  rw [← parameterObjects, ← parameterObjects, parameterObjects_given shared,
    parameterObjects_given given] at merged
  exact ⟨item, own, source, merged.flattened⟩

section Pet

def identifierAs (type : String) : Entries :=
  [(.text "name", .text "id"), (.text "in", .text "path"),
    (.text "schema", .record [("type", .text type)])]

def pageReference : Entries := [(.text "$ref", .text "#/components/parameters/Page")]

def forceFlag : Entries := [(.text "name", .text "force"), (.text "in", .text "query")]

def petDocument : Entries :=
  [(.text "paths", .record [("/pets/\x7bid\x7d", .record
    [("parameters", .list [.object (identifierAs "string"), .object pageReference]),
      ("GET", .record [("parameters", .list [.object forceFlag, .object (identifierAs "integer")])])
    ])])]

def petOperation : Operation :=
  ⟨"/pets/\x7bid\x7d", "get", none, none, [], none,
    [identifierAs "integer", pageReference, forceFlag], none, [], false⟩

theorem parameters_merged_pet : searchOperations petDocument none = .ok [petOperation] ∧
    ∃ item own, petOperation.Source petDocument item own ∧
      Flattened (parametersOf item) (parametersOf own)
        [identifierAs "integer", pageReference, forceFlag] :=
  ⟨rfl, @parameters_merged petDocument none _ _ rfl (.head _)⟩

/-- Of two references the second is left. -/
example : mergeParameters [.object pageReference, .record [("$ref", .text "#/other")]] =
    .ok [.record [("$ref", .text "#/other")]] := rfl

end Pet

end TypedClient

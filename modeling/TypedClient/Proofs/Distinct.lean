import Mathlib.Data.List.Infix

namespace TypedClient

variable {α β : Type}

theorem mem_of_mem_eraseDupsBy {same : α → α → Bool} {item : α} :
    ∀ {items : List α}, item ∈ items.eraseDupsBy same → item ∈ items
  | [], member => by simp at member
  | first :: rest, member => by
      rw [List.eraseDupsBy_cons] at member
      rcases List.mem_cons.mp member with rfl | member
      · simp
      · have inside := mem_of_mem_eraseDupsBy member
        exact List.mem_cons_of_mem _ (List.mem_filter.mp inside).1
termination_by items => items.length
decreasing_by exact Nat.lt_succ_of_le (List.length_filter_le _ _)

theorem nodup_eraseDups : ∀ items : List String, items.eraseDups.Nodup
  | [] => by simp
  | first :: rest => by
      rw [List.eraseDups_cons, List.nodup_cons]
      constructor
      · intro member
        simpa using List.mem_eraseDups.mp member
      · exact nodup_eraseDups _
termination_by items => items.length
decreasing_by exact Nat.lt_succ_of_le (List.length_filter_le _ _)

variable {items : List String} {item : String}

theorem eraseDups_ne_nil {items : List String} (given : items ≠ []) : items.eraseDups ≠ [] := by
  obtain ⟨item, inside⟩ := List.exists_mem_of_ne_nil items given
  exact List.ne_nil_of_mem (List.mem_eraseDups.mpr inside)

theorem eraseDups_shape (given : items ≠ []) : ∃ first rest, items.eraseDups = first :: rest := by
  rcases List.exists_cons_of_ne_nil given with ⟨first, rest, rfl⟩
  exact ⟨_, _, List.eraseDups_cons⟩

theorem eraseDups_front (front back : List String) :
    front.eraseDups <+: (front ++ back).eraseDups := by
  rw [List.eraseDups_append]
  exact List.prefix_append _ _

theorem eraseDups_append_of_subset {front back : List String} (inside : back ⊆ front) :
    (front ++ back).eraseDups = front.eraseDups := by
  have nothing : back.removeAll front = [] := by
    rw [List.removeAll, List.filter_eq_nil_iff]
    exact fun item member => by simpa using inside member
  rw [List.eraseDups_append, nothing, List.eraseDups_nil, List.append_nil]

theorem eraseDups_append_new (new : item ∉ items) :
    (items ++ [item]).eraseDups = items.eraseDups ++ [item] := by
  simp [List.eraseDups_append, List.removeAll, new, List.eraseDups_cons]

theorem eraseDups_of_nodup {items : List String} (distinct : items.Nodup) :
    items.eraseDups = items := by
  induction items with
  | nil => rfl
  | cons first rest ih =>
      rcases List.nodup_cons.mp distinct with ⟨new, distinct'⟩
      have kept : rest.filter (fun item => !item == first) = rest := by
        apply List.filter_eq_self.mpr
        intro item member
        rw [Bool.not_eq_true', beq_eq_false_iff_ne]
        rintro rfl
        exact new member
      rw [List.eraseDups_cons, kept, ih distinct']

theorem eraseDups_eraseDups_append (front back : List String) :
    (front.eraseDups ++ back).eraseDups = (front ++ back).eraseDups := by
  have same : back.removeAll front.eraseDups = back.removeAll front := by
    unfold List.removeAll
    apply List.filter_congr
    intro item _
    have known : item ∈ front.eraseDups ↔ item ∈ front := List.mem_eraseDups
    simp [known]
  rw [List.eraseDups_append, List.eraseDups_append, same,
    eraseDups_of_nodup (nodup_eraseDups front)]

theorem eraseDups_append_known (known : item ∈ items) :
    (items ++ [item]).eraseDups = items.eraseDups :=
  eraseDups_append_of_subset (by simpa using known)

theorem eraseDupsBy_map {same : β → β → Bool} {f : String → β}
    (faithful : ∀ a b, same (f a) (f b) = (a == b)) :
    ∀ items : List String, (items.map f).eraseDupsBy same = items.eraseDups.map f
  | [] => rfl
  | first :: rest => by
      have later := eraseDupsBy_map faithful (rest.filter fun item => !item == first)
      rw [List.map_cons, List.eraseDupsBy_cons, List.eraseDups_cons, List.map_cons, ← later,
        List.filter_map]
      congr 3
      apply List.filter_congr
      intro item _
      simp [faithful]
termination_by items => items.length
decreasing_by exact Nat.lt_succ_of_le (List.length_filter_le _ _)

theorem map_eraseDupsBy {f : α → String} : ∀ items : List α,
    (items.eraseDupsBy fun a b => f a == f b).map f = (items.map f).eraseDups
  | [] => rfl
  | first :: rest => by
      have later := map_eraseDupsBy (f := f) (rest.filter fun item => !f item == f first)
      have kept : (rest.filter fun item => decide ((f item == f first) = false)) =
          rest.filter fun item => !f item == f first :=
        List.filter_congr fun item _ => by cases f item == f first <;> rfl
      rw [List.eraseDupsBy_cons, List.map_cons, List.map_cons, List.eraseDups_cons, kept, later,
        List.filter_map]
      rfl
termination_by items => items.length
decreasing_by exact Nat.lt_succ_of_le (List.length_filter_le _ _)

section Alike

variable {same : α → α → Bool}

/-- A choice that does not tell apart items that count as the same can be made before or after. -/
theorem filter_eraseDupsBy {keep : α → Bool}
    (blind : ∀ a b, same a b = true → keep a = keep b) :
    ∀ items : List α, (items.eraseDupsBy same).filter keep = (items.filter keep).eraseDupsBy same
  | [] => rfl
  | first :: rest => by
      have later := filter_eraseDupsBy blind
        (rest.filter fun item => decide (same item first = false))
      rw [List.eraseDupsBy_cons, List.filter_cons, List.filter_cons]
      split
      · rw [List.eraseDupsBy_cons, later, List.filter_comm]
      · rename_i left
        rw [later, List.filter_filter]
        congr 1
        apply List.filter_congr
        intro item _
        cases alike : same item first with
        | false => simp
        | true => simp [blind _ _ alike, left]
termination_by items => items.length
decreasing_by exact Nat.lt_succ_of_le (List.length_filter_le _ _)

variable (alike : ∀ a b c, same a b = true → same a c = same b c)
include alike

/-- Of what comes behind, the items count that are like none before. -/
theorem eraseDupsBy_append : ∀ front back : List α,
    (front ++ back).eraseDupsBy same = front.eraseDupsBy same ++
      (back.filter fun item => front.all fun old => !same item old).eraseDupsBy same
  | [], back => by simp
  | first :: rest, back => by
      have shorter := eraseDupsBy_append (rest.filter fun item => decide (same item first = false))
        (back.filter fun item => decide (same item first = false))
      rw [List.cons_append, List.eraseDupsBy_cons, List.eraseDupsBy_cons, List.filter_append,
        shorter, List.filter_filter, List.cons_append]
      congr 3
      apply List.filter_congr
      intro item _
      cases met : same item first with
      | true => simp [met]
      | false =>
          -- what is like the first is not like an item that is not
          have apart (old : α) (both : same item old = true) : same old first = false := by
            rw [← alike item old first both, met]
          rw [Bool.eq_iff_iff]
          simp only [List.all_filter, List.all_cons, Bool.and_eq_true, List.all_eq_true, met]
          constructor
          · rintro ⟨none, -⟩
            refine ⟨rfl, fun old inside => ?_⟩
            by_contra both
            have like : same item old = true := by simpa using both
            simpa [apart old like, like] using none old inside
          · rintro ⟨-, none⟩
            exact ⟨fun old inside => by simp [none old inside], rfl⟩
termination_by front => front.length
decreasing_by exact Nat.lt_succ_of_le (List.length_filter_le _ _)

theorem eraseDupsBy_part : ∀ front items back : List α,
    (front ++ items.eraseDupsBy same ++ back).eraseDupsBy same =
      (front ++ items ++ back).eraseDupsBy same
  | [], [], back => rfl
  | [], first :: rest, back => by
      have blind : ∀ a b, same a b = true →
          decide (same a first = false) = decide (same b first = false) := by
        intro a b both
        rw [alike a b first both]
      have shorter := eraseDupsBy_part [] (rest.filter fun item => decide (same item first = false))
        (back.filter fun item => decide (same item first = false))
      rw [List.nil_append, List.nil_append] at shorter
      rw [List.eraseDupsBy_cons, List.nil_append, List.nil_append, List.cons_append,
        List.cons_append, List.eraseDupsBy_cons, List.eraseDupsBy_cons, List.filter_append,
        List.filter_append, filter_eraseDupsBy blind, List.filter_filter]
      simp only [Bool.and_self, shorter]
  | first :: front, items, back => by
      have blind : ∀ a b, same a b = true →
          decide (same a first = false) = decide (same b first = false) := by
        intro a b both
        rw [alike a b first both]
      have shorter := eraseDupsBy_part
        (front.filter fun item => decide (same item first = false))
        (items.filter fun item => decide (same item first = false))
        (back.filter fun item => decide (same item first = false))
      simp only [List.cons_append, List.eraseDupsBy_cons, List.filter_append,
        filter_eraseDupsBy blind, shorter]
termination_by front items => front.length + items.length
decreasing_by
  · have := List.length_filter_le (fun item => decide (same item first = false)) rest
    simp only [List.length_nil, List.length_cons]
    omega
  · have := List.length_filter_le (fun item => decide (same item first = false)) front
    have := List.length_filter_le (fun item => decide (same item first = false)) items
    simp only [List.length_cons]
    omega

end Alike

end TypedClient

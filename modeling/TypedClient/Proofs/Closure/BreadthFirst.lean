import TypedClient.Api.Models
import TypedClient.Proofs.Distinct

namespace TypedClient.Closure

theorem take_eq_of_front {front items : List String} {count : Nat} (inside : front <+: items)
    (bound : count ≤ front.length) : items.take count = front.take count := by
  obtain ⟨back, rfl⟩ := inside
  exact List.take_append_of_le_length bound

/-- The least set that holds the start and, with an item, its children. -/
inductive Reachable (start : List String) (children : String → List String) : String → Prop
  | start {key : String} (member : key ∈ start) : Reachable start children key
  | child {key child : String} (parent : Reachable start children key)
      (member : child ∈ children key) : Reachable start children child

/-- The breadth-first list of the least set: the start, then the children of each item of the list
in turn, every key at its first place only. -/
structure BreadthFirst (start : List String) (children : String → List String)
    (order : List String) : Prop where
  unfolds : order = (start ++ order.flatMap children).eraseDups
  least : ∀ key ∈ order, Reachable start children key

variable {start : List String} {children : String → List String}

namespace BreadthFirst

variable {order other : List String}

theorem nodup (first : BreadthFirst start children order) : order.Nodup := by
  rw [first.unfolds]
  exact nodup_eraseDups _

theorem mem_iff (first : BreadthFirst start children order) (key : String) :
    key ∈ order ↔ Reachable start children key := by
  constructor
  · exact first.least key
  · intro reached
    induction reached with
    | start member =>
        rw [first.unfolds, List.mem_eraseDups]
        exact List.mem_append_left _ member
    | child _ member ih =>
        rw [first.unfolds, List.mem_eraseDups]
        exact List.mem_append_right _ (List.mem_flatMap.mpr ⟨_, ih, member⟩)

/-- A front of the list accounts for what stands in the list at least as far. -/
theorem front_unfolds (first : BreadthFirst start children order) {front : List String}
    (inside : front <+: order) : (start ++ front.flatMap children).eraseDups <+: order := by
  obtain ⟨back, split⟩ := inside
  rw [first.unfolds, ← split, List.flatMap_append, ← List.append_assoc]
  exact eraseDups_front _ _

/-- A front that accounts for no more than itself is the whole list. -/
theorem eq_front (first : BreadthFirst start children order) {front : List String}
    (inside : front <+: order)
    (settled : (start ++ front.flatMap children).eraseDups <+: front) : order = front := by
  have closed : ∀ key, Reachable start children key → key ∈ front := by
    intro key reached
    induction reached with
    | start member =>
        exact settled.subset (List.mem_eraseDups.mpr (List.mem_append_left _ member))
    | child _ member ih =>
        refine settled.subset (List.mem_eraseDups.mpr (List.mem_append_right _ ?_))
        exact List.mem_flatMap.mpr ⟨_, ih, member⟩
  obtain ⟨back, rfl⟩ := inside
  cases back with
  | nil => simp
  | cons key rest =>
      have again := closed key (first.least key (by simp))
      have distinct := List.nodup_append.mp first.nodup
      exact absurd rfl (distinct.2.2 key again key (by simp))

/-- Both lists agree on ever longer fronts, until a front accounts for no more than itself. -/
theorem take_eq (first : BreadthFirst start children order)
    (second : BreadthFirst start children other) (count : Nat) :
    order.take count = other.take count := by
  induction count with
  | zero => rfl
  | succ count ih =>
      have front := List.take_prefix count order
      have front' : order.take count <+: other := ih ▸ List.take_prefix count other
      have longer := first.front_unfolds front
      have longer' := second.front_unfolds front'
      by_cases settled : (start ++ (order.take count).flatMap children).eraseDups.length ≤
          (order.take count).length
      · have inside := List.prefix_of_prefix_length_le longer front settled
        rw [first.eq_front front inside, ← second.eq_front front' inside]
      · have bound := longer.length_le
        rw [List.length_take] at settled
        have far : count + 1 ≤ (start ++ (order.take count).flatMap children).eraseDups.length := by
          omega
        rw [take_eq_of_front longer far, take_eq_of_front longer' far]

theorem unique (first : BreadthFirst start children order)
    (second : BreadthFirst start children other) : order = other := by
  have agree := first.take_eq second (order.length + other.length)
  rwa [List.take_of_length_le (by omega), List.take_of_length_le (by omega)] at agree

end BreadthFirst

def visited (children : String → List String) (unseen queue : List String) : List String :=
  match queue with
  | [] => []
  | key :: rest =>
    key :: visited children (leave unseen (fresh unseen (children key)))
      (rest ++ fresh unseen (children key))
termination_by (unseen.length, queue.length)
decreasing_by
  cases same : fresh unseen (children key) with
  | nil =>
      rw [leave_nil, List.append_nil]
      exact Prod.Lex.right _ (Nat.lt_add_one _)
  | cons first more =>
      have member : first ∈ fresh unseen (children key) := by simp [same]
      rw [← same]
      exact Prod.Lex.left _ _ (length_leave_lt member (mem_unseen_of_mem_fresh member))

/-- What holds between two steps of a walk: what it took and what it still has in its queue are the
start with the children of what it took, and nothing else is ever met. -/
structure Progress (start : List String) (children : String → List String)
    (taken unseen queue : List String) : Prop where
  settled : taken ++ queue = (start ++ taken.flatMap children).eraseDups
  apart : ∀ key ∈ unseen, key ∉ taken ++ queue
  complete : ∀ key, ∀ child ∈ children key, child ∈ taken ++ queue ∨ child ∈ unseen

namespace Progress

variable {taken unseen rest : List String} {key : String}

theorem fresh_eq (progress : Progress start children taken unseen (key :: rest)) :
    fresh unseen (children key) =
      ((children key).removeAll (start ++ taken.flatMap children)).eraseDups := by
  unfold fresh List.removeAll
  congr 1
  apply List.filter_congr
  intro child member
  have known : child ∈ taken ++ key :: rest ↔ child ∈ start ++ taken.flatMap children := by
    rw [progress.settled, List.mem_eraseDups]
  rw [Bool.eq_iff_iff]
  simp only [List.elem_eq_mem, Bool.not_eq_true', decide_eq_false_iff_not, decide_eq_true_eq]
  rw [← known]
  constructor
  · exact progress.apart child
  · intro new
    exact (progress.complete key child member).resolve_left new

theorem step (progress : Progress start children taken unseen (key :: rest)) :
    Progress start children (taken ++ [key]) (leave unseen (fresh unseen (children key)))
      (rest ++ fresh unseen (children key)) where
  settled := by
    calc
      taken ++ [key] ++ (rest ++ fresh unseen (children key)) =
          (taken ++ key :: rest) ++ fresh unseen (children key) := by simp
      _ = (start ++ taken.flatMap children).eraseDups ++
          ((children key).removeAll (start ++ taken.flatMap children)).eraseDups := by
        rw [progress.settled, progress.fresh_eq]
      _ = (start ++ (taken ++ [key]).flatMap children).eraseDups := by
        rw [← List.eraseDups_append]
        simp
  apart := by
    intro other member
    obtain ⟨inside, old⟩ := List.mem_filter.mp member
    have absent := progress.apart other inside
    simp_all
  complete := by
    intro parent child member
    by_cases new : child ∈ fresh unseen (children key)
    · left
      simp [new]
    · rcases progress.complete parent child member with known | unknown
      · left
        simp at known ⊢
        tauto
      · right
        exact List.mem_filter.mpr ⟨unknown, by simpa using new⟩

end Progress

theorem Progress.unfolds_visited {taken unseen queue : List String}
    (progress : Progress start children taken unseen queue) :
    taken ++ visited children unseen queue =
      (start ++ (taken ++ visited children unseen queue).flatMap children).eraseDups := by
  induction unseen, queue using visited.induct children generalizing taken with
  | case1 unseen =>
      simpa [visited] using progress.settled
  | case2 unseen key rest ih =>
      -- The record of taken keys grows by the head of the queue.
      have later := ih progress.step
      simpa [visited] using later

theorem Progress.reachable_visited {taken unseen queue : List String}
    (progress : Progress start children taken unseen queue)
    (sound : ∀ key ∈ taken ++ queue, Reachable start children key) :
    ∀ key ∈ visited children unseen queue, Reachable start children key := by
  induction unseen, queue using visited.induct children generalizing taken with
  | case1 unseen => simp [visited]
  | case2 unseen key rest ih =>
      rw [visited]
      intro other member
      rcases List.mem_cons.mp member with rfl | member
      · exact sound _ (by simp)
      · refine ih progress.step ?_ other member
        intro inside place
        have parent := sound key (by simp)
        rcases List.mem_append.mp place with place | place
        · exact sound inside (by simp at place ⊢; tauto)
        · rcases List.mem_append.mp place with place | place
          · exact sound inside (by simp [place])
          · obtain ⟨member, -⟩ := List.mem_filter.mp (List.mem_eraseDups.mp place)
            exact .child parent member

/-- A walk that starts with an empty record, and knows every key that children can be, takes the
keys in breadth-first order. -/
theorem breadthFirst_visited (start : List String) {known : List String}
    (inside : ∀ key, ∀ child ∈ children key, child ∈ known) :
    BreadthFirst start children
      (visited children (known.filter (!start.eraseDups.contains ·)) start.eraseDups) := by
  have progress : Progress start children [] (known.filter (!start.eraseDups.contains ·))
      start.eraseDups := by
    refine ⟨by simp, ?_, ?_⟩
    · intro key member
      simpa using (List.mem_filter.mp member).2
    · intro key child member
      by_cases first : child ∈ start.eraseDups
      · exact .inl (by simpa using first)
      · exact .inr (List.mem_filter.mpr ⟨inside key child member, by simpa using first⟩)
  constructor
  · simpa using progress.unfolds_visited
  · apply progress.reachable_visited
    intro key member
    exact .start (List.mem_eraseDups.mp (by simpa using member))

end TypedClient.Closure

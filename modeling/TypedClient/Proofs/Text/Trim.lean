import Mathlib.Data.List.DropRight
import TypedClient.Text.Blank

namespace TypedClient.Text

variable {α : Type} {p : α → Bool} {items front core back : List α}

/-- A property of all characters of a text is decided along the text, not over all characters. -/
theorem forall_of_all {P : α → Prop} [DecidablePred P]
    (all : items.all (fun item => decide (P item)) = true) : ∀ item ∈ items, P item := by
  simpa using all

def Tight (p : α → Bool) (items : List α) : Prop :=
  (∀ item ∈ items.head?, p item = false) ∧ ∀ item ∈ items.getLast?, p item = false

theorem tight_of_none (stays : ∀ item ∈ items, p item = false) : Tight p items :=
  ⟨fun item first => stays item (List.mem_of_mem_head? first),
    fun item last => stays item (List.mem_of_mem_getLast? last)⟩

theorem drop_takeWhile (p : α → Bool) (items : List α) :
    items.drop (items.takeWhile p).length = items.dropWhile p := by
  have behind : (items.takeWhile p ++ items.dropWhile p).drop (items.takeWhile p).length =
      items.dropWhile p := List.drop_left
  rwa [List.takeWhile_append_dropWhile] at behind

theorem dropWhile_of_head (stays : ∀ item ∈ items.head?, p item = false) :
    items.dropWhile p = items := by
  cases items with
  | nil => rfl
  | cons first rest => exact List.dropWhile_cons_of_neg (by simp [stays first rfl])

/-- What is taken ends where an item follows that does not satisfy `p`. -/
theorem takeWhile_of_stop (taken : ∀ item ∈ front, p item = true)
    (stops : ∀ item ∈ back.head?, p item = false) : (front ++ back).takeWhile p = front := by
  have nothing : back.takeWhile p = [] := by
    cases back with
    | nil => rfl
    | cons first rest => exact List.takeWhile_cons_of_neg (by simp [stops first rfl])
  rw [List.takeWhile_append_of_pos taken, nothing, List.append_nil]

theorem dropTrailing_append_of_all (dropped : ∀ item ∈ back, p item = true) (rest : List α) :
    dropTrailing p (rest ++ back) = dropTrailing p rest := by
  unfold dropTrailing
  rw [List.reverse_append, List.dropWhile_append_of_pos]
  simpa using dropped

theorem dropTrailing_of_last (stays : ∀ item ∈ items.getLast?, p item = false) :
    dropTrailing p items = items := by
  unfold dropTrailing
  rw [dropWhile_of_head, List.reverse_reverse]
  simpa using stays

theorem trimWhere_of_tight (tight : Tight p items) : trimWhere p items = items := by
  rw [trimWhere, dropWhile_of_head tight.1, dropTrailing_of_last tight.2]

theorem trimWhere_append (before : ∀ item ∈ front, p item = true) (tight : Tight p core)
    (after : ∀ item ∈ back, p item = true) : trimWhere p (front ++ core ++ back) = core := by
  rw [trimWhere, List.append_assoc, List.dropWhile_append_of_pos before]
  cases core with
  | nil =>
      rw [List.nil_append, List.dropWhile_eq_nil_iff.mpr after]
      rfl
  | cons first rest =>
      rw [dropWhile_of_head (by simpa using tight.1), dropTrailing_append_of_all after,
        dropTrailing_of_last tight.2]

theorem exists_trimWhere (p : α → Bool) (items : List α) :
    ∃ front back, (∀ item ∈ front, p item = true) ∧ (∀ item ∈ back, p item = true) ∧
      items = front ++ trimWhere p items ++ back := by
  refine ⟨items.takeWhile p, (items.dropWhile p).rtakeWhile p, ?_, ?_, ?_⟩
  · exact fun item member => List.mem_takeWhile_imp member
  · exact fun item member => List.mem_rtakeWhile_imp member
  · have last : trimWhere p items ++ (items.dropWhile p).rtakeWhile p = items.dropWhile p :=
      List.rdropWhile_append_rtakeWhile
    rw [List.append_assoc, last, List.takeWhile_append_dropWhile]

theorem trimWhere_subset (p : α → Bool) (items : List α) : trimWhere p items ⊆ items := by
  obtain ⟨front, back, -, -, whole⟩ := exists_trimWhere p items
  intro item member
  rw [whole]
  simp [member]

theorem tight_trimWhere (p : α → Bool) (items : List α) : Tight p (trimWhere p items) := by
  have last : ∀ item ∈ (trimWhere p items).getLast?, p item = false := by
    intro item member
    obtain ⟨given, rfl⟩ := List.mem_getLast?_eq_getLast member
    exact Bool.eq_false_iff.mpr (List.rdropWhile_last_not p (items.dropWhile p) given)
  refine ⟨?_, last⟩
  intro item member
  have start : item ∈ (items.dropWhile p).head? := by
    have inside : trimWhere p items <+: items.dropWhile p :=
      List.rdropWhile_prefix p (items.dropWhile p)
    obtain ⟨more, whole⟩ := inside
    rw [← whole]
    obtain ⟨rest, shape⟩ := List.head?_eq_some_iff.mp member
    simp [shape]
  obtain ⟨rest, shape⟩ := List.head?_eq_some_iff.mp start
  have stopped := List.head_dropWhile_not p (by rw [shape]; simp : items.dropWhile p ≠ [])
  simpa [shape] using stopped

theorem trimWhere_trimWhere (p : α → Bool) (items : List α) :
    trimWhere p (trimWhere p items) = trimWhere p items :=
  trimWhere_of_tight (tight_trimWhere p items)

theorem Tight.append (tight : Tight p front) (started : front ≠ []) (ended : back ≠ [])
    (tight' : Tight p back) (middle : List α) : Tight p (front ++ middle ++ back) := by
  constructor
  · rw [List.append_assoc, List.head?_append_of_ne_nil _ started]
    exact tight.1
  · rw [List.getLast?_append_of_ne_nil _ ended]
    exact tight'.2

section Join

variable {c : Char} {lines : List (List Char)}

theorem dropWhile_join (apart : ∀ line ∈ lines, c ∉ line) :
    ([c].intercalate lines).dropWhile (· == c) =
      [c].intercalate (lines.dropWhile List.isEmpty) := by
  induction lines with
  | nil => rfl
  | cons first rest ih =>
      have later := ih fun line member => apart line (by simp [member])
      cases first with
      | nil =>
          cases rest with
          | nil => rfl
          | cons second more =>
              rw [List.intercalate_cons_cons, List.nil_append, List.singleton_append,
                List.dropWhile_cons_of_pos (by simp), List.dropWhile_cons_of_pos rfl, later]
      | cons start others =>
          have differs : c ≠ start := by
            rintro rfl
            exact apart (c :: others) (by simp) (by simp)
          rw [List.dropWhile_cons_of_neg (by simp)]
          apply dropWhile_of_head
          cases rest <;> simp [List.intercalate_cons_cons, differs.symm]

theorem join_append {front back : List (List α)} (gap : List α) (started : front ≠ [])
    (ended : back ≠ []) :
    gap.intercalate (front ++ back) = gap.intercalate front ++ gap ++ gap.intercalate back := by
  induction front with
  | nil => exact absurd rfl started
  | cons first rest ih =>
      cases rest with
      | nil => simp [List.intercalate_cons_of_ne_nil ended]
      | cons second more =>
          have later := ih (by simp)
          rw [List.cons_append, List.intercalate_cons_of_ne_nil (by simp), later,
            List.intercalate_cons_cons]
          simp only [List.append_assoc]

theorem reverse_join (c : Char) (lines : List (List Char)) :
    ([c].intercalate lines).reverse = [c].intercalate (lines.map List.reverse).reverse := by
  induction lines with
  | nil => rfl
  | cons first rest ih =>
      by_cases empty : rest = []
      · simp [empty]
      · rw [List.intercalate_cons_of_ne_nil empty, List.map_cons, List.reverse_cons,
          join_append _ (by simpa using empty) (by simp), List.reverse_append,
          List.reverse_append, ih]
        simp

theorem trimWhere_join (apart : ∀ line ∈ lines, c ∉ line) :
    trimWhere (· == c) ([c].intercalate lines) =
      [c].intercalate (trimWhere List.isEmpty lines) := by
  have stays : ∀ line ∈ (lines.dropWhile List.isEmpty), c ∉ line :=
    fun line member => apart line ((List.dropWhile_suffix _).subset member)
  rw [trimWhere, dropWhile_join apart, trimWhere]
  generalize lines.dropWhile List.isEmpty = kept at stays
  rw [dropTrailing, reverse_join, dropWhile_join, reverse_join, dropTrailing, ← List.map_reverse,
    ← List.map_reverse, List.dropWhile_map, ← List.map_reverse, List.map_map]
  · have same : List.isEmpty ∘ List.reverse = (List.isEmpty : List Char → Bool) := by
      funext line
      simp
    rw [same]
    simp
  · intro line member
    rw [List.mem_reverse, List.mem_map] at member
    obtain ⟨original, inside, rfl⟩ := member
    simpa using stays original inside

end Join

end TypedClient.Text

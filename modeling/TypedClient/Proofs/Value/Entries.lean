import Mathlib.Data.List.Induction
import TypedClient.Value.Basic

namespace TypedClient

namespace Scalar

theorem same_iff (a b : Scalar) :
    a.same b = true ↔ a = b ∨ ∃ n, a.toInt? = some n ∧ b.toInt? = some n := by
  unfold same
  rw [Bool.or_eq_true, beq_iff_eq]
  cases a.toInt? with
  | none => simp
  | some m =>
      cases b.toInt? with
      | none => simp
      | some n => simp [@eq_comm _ n m]

theorem same_congr (a b c : Scalar) (both : a.same b = true) : a.same c = b.same c := by
  rw [Bool.eq_iff_iff, same_iff, same_iff]
  rcases (same_iff a b).mp both with rfl | ⟨n, left, right⟩
  · rfl
  · constructor
    · rintro (rfl | ⟨m, first, last⟩)
      · exact .inr ⟨n, right, left⟩
      · cases left.symm.trans first
        exact .inr ⟨n, right, last⟩
    · rintro (rfl | ⟨m, first, last⟩)
      · exact .inr ⟨n, left, right⟩
      · cases right.symm.trans first
        exact .inr ⟨n, left, last⟩

theorem same_comm (a b : Scalar) : a.same b = b.same a := by
  rw [Bool.eq_iff_iff, same_iff, same_iff]
  constructor <;> rintro (rfl | ⟨n, left, right⟩)
  · exact .inl rfl
  · exact .inr ⟨n, right, left⟩
  · exact .inl rfl
  · exact .inr ⟨n, right, left⟩

end Scalar

namespace Entries

variable {entries more : Entries} {key : Scalar} {value : Value}

def Distinct (entries : Entries) : Prop :=
  entries.Pairwise fun first second => first.1.same second.1 = false

theorem insert_of_new (value : Value) (new : ∀ entry ∈ entries, entry.1.same key = false) :
    insert entries key value = entries ++ [(key, value)] := by
  induction entries with
  | nil => rfl
  | cons first rest ih =>
      rw [insert, if_neg (by simp [new first (by simp)])]
      rw [ih fun entry member => new entry (by simp [member])]
      rfl

theorem insertAll_of_distinct (distinct : Distinct (entries ++ more)) :
    insertAll entries more = entries ++ more := by
  induction more generalizing entries with
  | nil => exact (List.append_nil entries).symm
  | cons first rest ih =>
      obtain ⟨-, -, apart⟩ := List.pairwise_append.mp distinct
      have new : insert entries first.1 first.2 = entries ++ [first] :=
        insert_of_new first.2 fun entry member => apart entry member first (by simp)
      rw [List.append_cons] at distinct ⊢
      rw [← ih distinct, insertAll, List.foldl_cons, new]
      rfl

theorem keys_insert (entries : Entries) (key : Scalar) (value : Value) :
    (insert entries key value).map Prod.fst = entries.map Prod.fst ∨
      ∀ entry ∈ entries, entry.1.same key = false := by
  induction entries with
  | nil => exact .inr fun _ member => by cases member
  | cons first rest ih =>
      rw [insert]
      split
      · exact .inl rfl
      · rename_i other
        rcases ih with kept | new
        · exact .inl (congrArg (first.1 :: ·) kept)
        · refine .inr fun entry member => ?_
          rcases List.mem_cons.mp member with rfl | inside
          · exact Bool.eq_false_iff.mpr other
          · exact new entry inside

theorem distinct_iff : Distinct entries ↔
    (entries.map Prod.fst).Pairwise fun first second => first.same second = false := by
  rw [Distinct, List.pairwise_map]

theorem distinct_insert (distinct : Distinct entries) (key : Scalar) (value : Value) :
    Distinct (insert entries key value) := by
  rcases keys_insert entries key value with kept | new
  · rw [distinct_iff, kept, ← distinct_iff]
    exact distinct
  · rw [insert_of_new value new]
    refine List.pairwise_append.mpr ⟨distinct, List.pairwise_singleton _ _, ?_⟩
    intro entry member other single
    rw [List.mem_singleton.mp single]
    exact new entry member

theorem distinct_insertAll (distinct : Distinct entries) (more : Entries) :
    Distinct (insertAll entries more) := by
  induction more generalizing entries with
  | nil => exact distinct
  | cons first rest ih => exact ih (distinct_insert distinct _ _)

/-- The value under a key of any kind. -/
def valueAt? : Entries → Scalar → Option Value
  | [], _ => none
  | (first, value) :: rest, key => if first.same key then some value else valueAt? rest key

theorem valueAt?_insert (entries : Entries) (own : Scalar) (value : Value) (key : Scalar) :
    valueAt? (insert entries own value) key =
      if own.same key then some value else valueAt? entries key := by
  induction entries with
  | nil => rfl
  | cons entry rest ih =>
      obtain ⟨first, old⟩ := entry
      rw [insert]
      split
      · rename_i met
        rw [valueAt?, valueAt?, Scalar.same_congr first own key met]
        split <;> rfl
      · rename_i other
        rw [valueAt?, valueAt?, ih]
        cases asked : first.same key with
        | false => simp
        | true =>
            -- a key that is the same as the first is not the one that is put in
            have apart : own.same key = false := by
              rw [Scalar.same_comm own key, ← Scalar.same_congr first key own asked]
              simpa using other
            simp [apart]

theorem valueAt?_insertAll (entries more : Entries) (key : Scalar) :
    valueAt? (insertAll entries more) key =
      (valueAt? (insertAll [] more) key).or (valueAt? entries key) := by
  have step (before : Entries) (rest : Entries) (last : Scalar × Value) :
      insertAll before (rest ++ [last]) = insert (insertAll before rest) last.1 last.2 :=
    List.foldl_append
  induction more using List.reverseRecOn with
  | nil => rfl
  | append_singleton rest last ih =>
      rw [step, step, valueAt?_insert, valueAt?_insert, ih]
      split <;> rfl

section Hold

variable {P : Scalar → Prop} {Q : Value → Prop}

theorem forall_insert (old : ∀ entry ∈ entries, P entry.1 ∧ Q entry.2) (own : P key)
    (held : Q value) : ∀ entry ∈ insert entries key value, P entry.1 ∧ Q entry.2 := by
  induction entries with
  | nil => simpa [insert] using ⟨own, held⟩
  | cons first rest ih =>
      have later := ih fun entry member => old entry (by simp [member])
      rw [insert]
      split
      · refine List.forall_mem_cons.mpr ⟨⟨(old first (by simp)).1, held⟩, ?_⟩
        exact fun entry member => old entry (by simp [member])
      · exact List.forall_mem_cons.mpr ⟨old first (by simp), later⟩

theorem forall_insertAll (old : ∀ entry ∈ entries, P entry.1 ∧ Q entry.2)
    (new : ∀ entry ∈ more, P entry.1 ∧ Q entry.2) :
    ∀ entry ∈ insertAll entries more, P entry.1 ∧ Q entry.2 := by
  induction more generalizing entries with
  | nil => exact old
  | cons first rest ih =>
      have own := new first (by simp)
      exact ih (forall_insert old own.1 own.2) fun entry member => new entry (by simp [member])

end Hold

end Entries

end TypedClient

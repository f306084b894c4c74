import Mathlib.Data.List.Forall2
import TypedClient.Validation

namespace TypedClient

variable {ε α β : Type}

theorem bind_eq_ok (source : Except ε α) (next : α → Except ε β) (result : β) :
    source >>= next = .ok result ↔ ∃ value, source = .ok value ∧ next value = .ok result := by
  cases source with
  | error failure => simp [bind, Except.bind]
  | ok value => simp [bind, Except.bind]

theorem map_eq_ok (source : Except ε α) (f : α → β) (result : β) :
    f <$> source = .ok result ↔ ∃ value, source = .ok value ∧ f value = result := by
  cases source with
  | error failure => simp [Functor.map, Except.map]
  | ok value => simp [Functor.map, Except.map]

theorem mapError_eq_ok {φ : Type} (source : Except ε α) (f : ε → φ) (result : α) :
    source.mapError f = .ok result ↔ source = .ok result := by
  cases source with
  | error failure => simp [Except.mapError]
  | ok value => simp [Except.mapError]

theorem pure_eq_ok (value result : α) :
    (pure value : Except ε α) = .ok result ↔ value = result := by
  simp [pure, Except.pure]

theorem eq_ok_of_toOption {source : Except ε α} {value : α} (found : source.toOption = some value) :
    source = .ok value := by
  cases source with
  | error failure => cases found
  | ok result => rw [Option.some.inj found]

theorem mapM_eq_ok (f : α → Except ε β) (items : List α) (results : List β) :
    items.mapM f = .ok results ↔ List.Forall₂ (fun item result => f item = .ok result)
      items results := by
  induction items generalizing results with
  | nil =>
      rw [List.mapM_nil, pure_eq_ok]
      simp [eq_comm]
  | cons item rest ih =>
      simp only [List.mapM_cons, bind_eq_ok, pure_eq_ok, ih]
      constructor
      · rintro ⟨value, ran, values, later, rfl⟩
        exact .cons ran later
      · rintro (_ | ⟨ran, later⟩)
        exact ⟨_, ran, _, later, rfl⟩

/-- Steps that agree up to a function on their values do so as a whole. -/
theorem map_mapM_congr {m : Type → Type} [Monad m] [LawfulMonad m] {item result shown : Type}
    {f g : item → m result} {h : result → shown} {items : List item}
    (same : ∀ item ∈ items, h <$> f item = h <$> g item) :
    List.map h <$> items.mapM f = List.map h <$> items.mapM g := by
  have split (k : item → m result) (first : item) (rest : List item) :
      List.map h <$> (first :: rest).mapM k =
        (h <$> k first) >>= fun head =>
          (List.map h <$> rest.mapM k) >>= fun tail => pure (head :: tail) := by
    simp
  induction items with
  | nil => rfl
  | cons first rest ih =>
      have later := ih fun item member => same item (by simp [member])
      rw [split f, split g, same first (by simp), later]

theorem partner_of_mem {relation : α → β → Prop} {items : List α} {results : List β} {result : β}
    (related : List.Forall₂ relation items results) (member : result ∈ results) :
    ∃ item ∈ items, relation item result := by
  induction related with
  | nil => cases member
  | cons first _ ih =>
      rcases List.mem_cons.mp member with rfl | member
      · exact ⟨_, by simp, first⟩
      · obtain ⟨item, inside, made⟩ := ih member
        exact ⟨item, by simp [inside], made⟩

theorem source_of_mapM {f : α → Except ε β} {items : List α} {results : List β} {result : β}
    (ran : items.mapM f = .ok results) (member : result ∈ results) :
    ∃ item ∈ items, f item = .ok result := by
  have partner := partner_of_mem ((mapM_eq_ok f items results).mp ran) member
  exact partner

namespace Checked

theorem seq_eq_ok (f : Checked (α → β)) (x : Checked α) (value : β) :
    (f <*> x).result = .ok value ↔
      ∃ g a, f.result = .ok g ∧ x.result = .ok a ∧ g a = value := by
  change (apply f x).result = .ok value ↔ _
  unfold apply
  rcases f.result with early | g <;> rcases x.result with later | a <;> simp

theorem map_eq_ok (g : α → β) (x : Checked α) (value : β) :
    (g <$> x).result = .ok value ↔ ∃ a, x.result = .ok a ∧ g a = value := by
  change (pure g <*> x).result = .ok value ↔ _
  rw [seq_eq_ok]
  constructor
  · rintro ⟨h, a, same, read, rfl⟩
    cases same
    exact ⟨a, read, rfl⟩
  · rintro ⟨a, read, rfl⟩
    exact ⟨g, a, rfl, read, rfl⟩

theorem toExcept_eq_ok (x : Checked α) (value : α) :
    x.toExcept = .ok value ↔ x.result = .ok value := by
  unfold toExcept
  cases x.result <;> simp

theorem under_eq_ok {key : Scalar} {checked : Checked α} {value : α}
    (ran : (under key checked).result = .ok value) : checked.result = .ok value := by
  unfold under at ran
  split at ran
  · exact ran
  · cases ran

end Checked

namespace Check

theorem text_eq_ok {value : Value} {read : String} (ran : (text value).result = .ok read) :
    value = .text read := by
  unfold text at ran
  split at ran
  · cases ran
    rfl
  · cases ran

theorem entries_eq_ok {value : Value} {read : Entries}
    (ran : (entries value).result = .ok read) : value = .object read := by
  unfold entries at ran
  split at ran
  · dsimp only at ran
    split at ran
    · cases ran
      rfl
    · cases ran
  · cases ran

theorem eachFrom_entries_eq_ok {index : Nat} {items : List Value} {read : List Entries}
    (ran : (Checked.eachFrom entries index items).result = .ok read) :
    items = read.map .object := by
  induction items generalizing index read with
  | nil =>
      cases ran
      rfl
  | cons item rest ih =>
      rw [Checked.eachFrom, Checked.seq_eq_ok] at ran
      obtain ⟨_, later, front, others, rfl⟩ := ran
      obtain ⟨first, own, rfl⟩ := (Checked.map_eq_ok _ _ _).mp front
      rw [entries_eq_ok (Checked.under_eq_ok own), ih others, List.map_cons]

end Check

end TypedClient

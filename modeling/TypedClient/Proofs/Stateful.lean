import TypedClient.Error
import TypedClient.Notice
import TypedClient.Proofs.Outcome

namespace TypedClient

variable {σ α β : Type}

/-- The computation ends with a value, and what it finds and what it leaves are these states. -/
def Yields (action : ExceptT Error (StateM σ) α) (before : σ) (value : α) (after : σ) : Prop :=
  (ExceptT.run action).run before = (.ok value, after)

theorem Yields.unique {action : ExceptT Error (StateM σ) α} {before after after' : σ}
    {value value' : α} (ran : Yields action before value after)
    (ran' : Yields action before value' after') : value = value' ∧ after = after' := by
  have same := ran.symm.trans ran'
  cases same
  exact ⟨rfl, rfl⟩

def checkYields [DecidableEq α] [DecidableEq σ] (action : ExceptT Error (StateM σ) α) (before : σ)
    (value : α) (after : σ) : Bool :=
  match (ExceptT.run action).run before with
  | (.ok found, left) => found = value && left = after
  | (.error _, _) => false

theorem yields_of_check [DecidableEq α] [DecidableEq σ] {action : ExceptT Error (StateM σ) α}
    {before after : σ} {value : α} (checked : checkYields action before value after = true) :
    Yields action before value after := by
  unfold checkYields at checked
  split at checked
  · rename_i found left ran
    simp only [Bool.and_eq_true, decide_eq_true_eq] at checked
    rw [Yields, ran, checked.1, checked.2]
  · cases checked

theorem run_bind (action : ExceptT Error (StateM σ) α) (next : α → ExceptT Error (StateM σ) β)
    (before : σ) :
    (ExceptT.run (action >>= next)).run before =
      match (ExceptT.run action).run before with
      | (.ok value, between) => (ExceptT.run (next value)).run between
      | (.error failure, between) => (.error failure, between) := by
  rw [ExceptT.run_bind, StateT.run_bind]
  cases (ExceptT.run action).run before with
  | mk outcome between => cases outcome <;> rfl

theorem yields_pure (value result : α) (before after : σ) :
    Yields (pure value) before result after ↔ result = value ∧ after = before := by
  change (Except.ok value, before) = (Except.ok result, after) ↔ _
  simp [eq_comm]

theorem yields_bind (action : ExceptT Error (StateM σ) α)
    (next : α → ExceptT Error (StateM σ) β) (before after : σ) (result : β) :
    Yields (action >>= next) before result after ↔
      ∃ value between, Yields action before value between ∧
        Yields (next value) between result after := by
  unfold Yields
  rw [run_bind]
  rcases (ExceptT.run action).run before with ⟨failure | value, between⟩
  · constructor
    · intro ran
      cases ran
    · rintro ⟨_, _, same, _⟩
      cases same
  · constructor
    · intro ran
      exact ⟨value, between, rfl, ran⟩
    · rintro ⟨_, _, same, ran⟩
      cases same
      exact ran

theorem Yields.bind {action : ExceptT Error (StateM σ) α} {next : α → ExceptT Error (StateM σ) β}
    {before between after : σ} {value : α} {result : β} (ran : Yields action before value between)
    (later : Yields (next value) between result after) :
    Yields (action >>= next) before result after :=
  (yields_bind _ _ _ _ _).mpr ⟨value, between, ran, later⟩

/-- What follows a computation counts only for the values that it ends with. -/
theorem bind_congr_yields {action : ExceptT Error (StateM σ) α}
    {next other : α → ExceptT Error (StateM σ) β}
    (same : ∀ before value after, Yields action before value after → next value = other value) :
    action >>= next = action >>= other := by
  apply ExceptT.ext
  apply StateT.ext
  intro before
  rw [run_bind, run_bind]
  cases ran : (ExceptT.run action).run before with
  | mk outcome between =>
      cases outcome with
      | error failure => rfl
      | ok value =>
          dsimp only
          rw [same before value between ran]

theorem yields_map (action : ExceptT Error (StateM σ) α) (f : α → β) (before after : σ)
    (result : β) :
    Yields (f <$> action) before result after ↔
      ∃ value, Yields action before value after ∧ f value = result := by
  rw [map_eq_pure_bind, yields_bind]
  simp only [yields_pure]
  constructor
  · rintro ⟨value, between, ran, rfl, rfl⟩
    exact ⟨value, ran, rfl⟩
  · rintro ⟨value, ran, rfl⟩
    exact ⟨value, after, ran, rfl, rfl⟩

theorem yields_liftExcept (source : Except Error α) (before after : σ) (value : α) :
    Yields (liftExcept source) before value after ↔ source = .ok value ∧ after = before := by
  cases source with
  | error failure =>
      change (Except.error failure, before) = (Except.ok value, after) ↔ _
      simp
  | ok result =>
      change (Except.ok result, before) = (Except.ok value, after) ↔ _
      simp [eq_comm]

theorem yields_get (before after value : σ) :
    Yields (getThe σ) before value after ↔ value = before ∧ after = before := by
  change (Except.ok before, before) = (Except.ok value, after) ↔ _
  simp [eq_comm]

theorem yields_set (state before after : σ) (value : Unit) :
    Yields (set state) before value after ↔ after = state := by
  change (Except.ok (), state) = (Except.ok value, after) ↔ _
  simp [eq_comm]

theorem yields_modify (f : σ → σ) (before after : σ) (value : Unit) :
    Yields (modifyThe σ f) before value after ↔ after = f before := by
  change (Except.ok (), f before) = (Except.ok value, after) ↔ _
  simp [eq_comm]

theorem yields_mapM_nil (f : α → ExceptT Error (StateM σ) β) (before after : σ) (results : List β) :
    Yields ([].mapM f) before results after ↔ results = [] ∧ after = before := by
  rw [List.mapM_nil]
  exact yields_pure _ _ _ _

theorem yields_mapM_cons (f : α → ExceptT Error (StateM σ) β) (item : α) (rest : List α)
    (before after : σ) (results : List β) :
    Yields ((item :: rest).mapM f) before results after ↔
      ∃ first between others, Yields (f item) before first between ∧
        Yields (rest.mapM f) between others after ∧ results = first :: others := by
  simp only [List.mapM_cons, yields_bind, yields_pure]
  constructor
  · rintro ⟨first, between, ran, others, _, later, rfl, rfl⟩
    exact ⟨first, between, others, ran, later, rfl⟩
  · rintro ⟨first, between, others, ran, later, rfl⟩
    exact ⟨first, between, ran, others, after, later, rfl, rfl⟩

/-- Computations that only read leave the state as it is, however many they are. -/
theorem yields_mapM_of_pure {f : α → ExceptT Error (StateM σ) β} {pure : α → Except Error β}
    {before : σ} (each : ∀ item result after,
      Yields (f item) before result after ↔ pure item = .ok result ∧ after = before)
    (items : List α) (results : List β) (after : σ) :
    Yields (items.mapM f) before results after ↔
      items.mapM pure = .ok results ∧ after = before := by
  induction items generalizing results with
  | nil =>
      rw [yields_mapM_nil, List.mapM_nil, pure_eq_ok]
      simp [eq_comm]
  | cons item rest ih =>
      rw [yields_mapM_cons]
      simp only [List.mapM_cons, bind_eq_ok, pure_eq_ok]
      constructor
      · rintro ⟨first, between, others, ran, later, rfl⟩
        rcases (each _ _ _).mp ran with ⟨made, rfl⟩
        rcases (ih _).mp later with ⟨made', rfl⟩
        exact ⟨⟨first, made, others, made', rfl⟩, rfl⟩
      · rintro ⟨⟨first, made, others, made', rfl⟩, rfl⟩
        exact ⟨first, _, others, (each _ _ _).mpr ⟨made, rfl⟩, (ih _).mpr ⟨made', rfl⟩, rfl⟩

theorem yields_forM_nil (f : α → ExceptT Error (StateM σ) PUnit) (before after : σ)
    (value : PUnit) :
    Yields ([].forM f) before value after ↔ after = before := by
  change Yields (forM [] f) before value after ↔ _
  rw [List.forM_nil, yields_pure]
  simp

theorem yields_forM_cons (f : α → ExceptT Error (StateM σ) PUnit) (item : α) (rest : List α)
    (before after : σ) (value : PUnit) :
    Yields ((item :: rest).forM f) before value after ↔
      ∃ between, Yields (f item) before () between ∧ Yields (rest.forM f) between value after := by
  change Yields (forM (item :: rest) f) before value after ↔ _
  rw [List.forM_cons, yields_bind]
  constructor
  · rintro ⟨⟨⟩, between, ran, later⟩
    exact ⟨between, ran, later⟩
  · rintro ⟨between, ran, later⟩
    exact ⟨⟨⟩, between, ran, later⟩

theorem yields_foldlM_nil (f : β → α → ExceptT Error (StateM σ) β) (start result : β)
    (before after : σ) :
    Yields ([].foldlM f start) before result after ↔ result = start ∧ after = before := by
  rw [List.foldlM_nil]
  exact yields_pure _ _ _ _

theorem yields_foldlM_cons (f : β → α → ExceptT Error (StateM σ) β) (item : α) (rest : List α)
    (start result : β) (before after : σ) :
    Yields ((item :: rest).foldlM f start) before result after ↔
      ∃ next between, Yields (f start item) before next between ∧
        Yields (rest.foldlM f next) between result after := by
  rw [List.foldlM_cons, yields_bind]

theorem Yields.mapM_append {f : α → ExceptT Error (StateM σ) β} {front back : List α}
    {results results' : List β} {before between after : σ}
    (ran : Yields (front.mapM f) before results between)
    (later : Yields (back.mapM f) between results' after) :
    Yields ((front ++ back).mapM f) before (results ++ results') after := by
  rw [List.mapM_append]
  exact ran.bind (later.bind ((yields_pure _ _ _ _).mpr ⟨rfl, rfl⟩))

theorem yields_throw (failure : Error) (before after : σ) (value : α) :
    ¬ Yields (throw failure) before value after := by
  intro ran
  change (Except.error failure, before) = (Except.ok value, after) at ran
  cases ran

end TypedClient

namespace TypedClient.Noted

theorem yields_outcome {α : Type} (action : Noted α) (value : α) (notices : List Notice) :
    action.outcome = (.ok value, notices) ↔ Yields action [] value notices :=
  Iff.rfl

theorem yields_notify (notice : Notice) (before after : List Notice) (value : Unit) :
    Yields (notify notice) before value after ↔ after = before ++ [notice] := by
  change (Except.ok (), before ++ [notice]) = (Except.ok value, after) ↔ _
  simp [eq_comm]

end TypedClient.Noted

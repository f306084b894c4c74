import TypedClient.Operation.Search
import TypedClient.Proofs.Outcome
import TypedClient.Proofs.Schema.Parts

namespace TypedClient

namespace Operation

/-- An operation has the path, the method and the parameters that its record gives. -/
theorem fields_of_ofEntries {path : Scalar} {method : String} {data : Entries}
    {operation : Operation} (ran : ofEntries ((.text "path", .scalar path) ::
      (.text "method", .text method) :: data) = .ok operation) :
    path = .text operation.path ∧ method = operation.method ∧
      ∀ merged, Entries.find? data "parameters" = some (.list merged) →
        merged = operation.parameters.map .object := by
  have checked := (Checked.toExcept_eq_ok _ _).mp ran
  unfold check at checked
  simp only [Checked.seq_eq_ok, Checked.map_eq_ok] at checked
  obtain ⟨_, _, ⟨_, _, ⟨_, _, ⟨_, parameters, ⟨_, _, ⟨_, _, ⟨_, _, ⟨_, _, ⟨_, _, ⟨_, placed, rfl⟩,
    named, rfl⟩, -, rfl⟩, -, rfl⟩, -, rfl⟩, -, rfl⟩, listed, rfl⟩, -, rfl⟩, -, rfl⟩, -, rfl⟩ :=
      checked
  refine ⟨?_, ?_, fun merged given => ?_⟩
  · have text := Check.text_eq_ok (Checked.under_eq_ok placed)
    exact Value.scalar.inj text
  · have text := Check.text_eq_ok (Checked.under_eq_ok named)
    exact Scalar.text.inj (Value.scalar.inj text)
  · have found : Check.fieldOf? ((.text "path", .scalar path) :: (.text "method", .text method) ::
        data) "parameters" "parameters" = some (.list merged) := by
      simp [Check.fieldOf?, Entries.find?, given]
    rw [Check.optional, found] at listed
    exact Check.eachFrom_entries_eq_ok (Checked.under_eq_ok listed)

/-- The item of a path and, under a method in it, the record that an operation comes from. -/
structure Source (document : Entries) (operation : Operation) (item own : Entries) : Prop where
  path : ∃ paths, Entries.field document "paths" = .object paths ∧
    (.text operation.path, .object item) ∈ paths
  method : ∃ method, (.text method, .object own) ∈ item ∧ lowerText method = operation.method
  known : operation.method ∈ httpMethods
  parameters : ∃ common special,
    (Entries.field item "parameters").givenElements = .ok common ∧
    (Entries.field own "parameters").givenElements = .ok special ∧
    mergeParameters (common ++ special) = .ok (operation.parameters.map .object)

end Operation

section Search

variable {document : Entries} {keyword : Option String} {operations : List Operation}
  {operation : Operation}

theorem mem_allOperations_of_search (ran : searchOperations document keyword = .ok operations)
    (member : operation ∈ operations) :
    ∃ all, allOperations document = .ok all ∧ operation ∈ all := by
  obtain ⟨all, listed, chosen⟩ := (bind_eq_ok _ _ _).mp ran
  refine ⟨all, listed, ?_⟩
  split at chosen
  · cases chosen
    exact member
  · cases chosen
    exact member
  · cases chosen
    exact List.mem_of_mem_filter member

theorem entry_of_operationsOfMethod {path : Scalar} {shared : Value} {entry : Scalar × Value}
    (ran : operationsOfMethod path shared entry = .ok operations)
    (member : operation ∈ operations) :
    ∃ method own, entry = (.text method, .object own) ∧ lowerText method ∈ httpMethods ∧
      operationOf path method shared own = .ok operation := by
  unfold operationsOfMethod at ran
  split at ran
  · rename_i method own
    split at ran
    · rename_i known
      obtain ⟨made, built, same⟩ := (bind_eq_ok _ _ _).mp ran
      cases same
      obtain rfl := List.mem_singleton.mp member
      exact ⟨method, own, rfl, List.contains_iff_mem.mp known, built⟩
    · cases ran
      cases member
  · cases ran
    cases member
  · cases ran

theorem entry_of_operationsOfPath {entry : Scalar × Value}
    (ran : operationsOfPath entry = .ok operations) (member : operation ∈ operations) :
    ∃ path item method own, entry = (path, .object item) ∧ (.text method, .object own) ∈ item ∧
      lowerText method ∈ httpMethods ∧
      operationOf path method (Entries.field item "parameters") own = .ok operation := by
  unfold operationsOfPath at ran
  split at ran
  · rename_i path item
    obtain ⟨parts, each, same⟩ := (bind_eq_ok _ _ _).mp ran
    cases same
    obtain ⟨part, among, inside⟩ := List.mem_flatten.mp member
    obtain ⟨entry, held, made⟩ := source_of_mapM each among
    obtain ⟨method, own, rfl, known, built⟩ := entry_of_operationsOfMethod made inside
    exact ⟨path, item, method, own, rfl, held, known, built⟩
  · cases ran
    cases member

theorem entry_of_allOperations (ran : allOperations document = .ok operations)
    (member : operation ∈ operations) :
    ∃ paths entry found, Entries.field document "paths" = .object paths ∧ entry ∈ paths ∧
      operationsOfPath entry = .ok found ∧ operation ∈ found := by
  unfold allOperations at ran
  dsimp only at ran
  split at ran
  · cases ran
    cases member
  · split at ran
    · rename_i paths held
      obtain ⟨groups, each, same⟩ := (bind_eq_ok _ _ _).mp ran
      cases same
      obtain ⟨group, among, inside⟩ := List.mem_flatten.mp member
      obtain ⟨entry, listed, made⟩ := source_of_mapM each among
      exact ⟨paths, entry, group, held, listed, made, inside⟩
    · cases ran

theorem source_of_searchOperations (ran : searchOperations document keyword = .ok operations)
    (member : operation ∈ operations) : ∃ item own, operation.Source document item own := by
  obtain ⟨all, listed, kept⟩ := mem_allOperations_of_search ran member
  obtain ⟨paths, entry, found, held, placed, made, inside⟩ := entry_of_allOperations listed kept
  obtain ⟨path, item, method, own, rfl, under, known, built⟩ :=
    entry_of_operationsOfPath made inside
  obtain ⟨common, shared, built⟩ := (bind_eq_ok _ _ _).mp built
  obtain ⟨special, given, built⟩ := (bind_eq_ok _ _ _).mp built
  obtain ⟨merged, put, built⟩ := (bind_eq_ok _ _ _).mp built
  dsimp only at built
  split at built
  · cases built
  · obtain ⟨rfl, spelled, taken⟩ := Operation.fields_of_ofEntries built
    obtain rfl := taken merged (Entries.find_insert_self own "parameters" (.list merged))
    exact ⟨item, own, ⟨paths, held, placed⟩, ⟨method, under, spelled⟩, spelled ▸ known,
      common, special, shared, given, put⟩

theorem method_of_searchOperations (ran : searchOperations document keyword = .ok operations) :
    ∀ operation ∈ operations, operation.method ∈ httpMethods := by
  intro operation member
  obtain ⟨item, own, source⟩ := source_of_searchOperations ran member
  exact source.known

end Search

end TypedClient

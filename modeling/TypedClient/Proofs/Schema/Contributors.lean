import TypedClient.Proofs.Schema.Local

-- the names of the cases serve the proof that the recursion ends
set_option linter.unusedVariables false

namespace TypedClient

def partsOf : Value → List Value
  | .object entries =>
    match Entries.find? entries "allOf" with
    | some (.list parts) => parts
    | _ => []
  | _ => []

def ownEntries : Value → List Entries
  | .object entries => [entries]
  | _ => []

theorem entries_of_isObject {value : Value} (whole : value.isObject = true) :
    ∃ entries, value = .object entries := by
  cases value with
  | object entries => exact ⟨entries, rfl⟩
  | _ => cases whole

theorem partsOf_of_listed {entries : Entries} {parts : List Value}
    (listed : Entries.find? entries "allOf" = some (.list parts)) :
    partsOf (.object entries) = parts := by
  rw [partsOf, listed]

theorem listed_of_partsOf {entries : Entries} {first : Value} {rest : List Value}
    (parts : partsOf (.object entries) = first :: rest) :
    Entries.find? entries "allOf" = some (.list (first :: rest)) := by
  rw [partsOf] at parts
  split at parts
  · rename_i found
    rw [found, parts]
  · cases parts

theorem sizeOf_of_mem_partsOf {whole part : Value} (member : part ∈ partsOf whole) :
    sizeOf part < sizeOf whole := by
  unfold partsOf at member
  split at member
  · split at member
    · rename_i listed
      have inner := List.sizeOf_lt_of_mem member
      have smaller := Entries.sizeOf_find? listed
      simp only [Value.list.sizeOf_spec, Value.object.sizeOf_spec] at smaller ⊢
      omega
    · cases member
  · cases member

/-- The objects that a part contributes, in their order: those of its own parts and then itself. A
reference contributes what its schema contributes; a key is opened once on a branch. -/
def contributors (remaining : Schemas) (part : Value) : List Entries :=
  match part.ref? with
  | some (.text ref) =>
    match found : remaining.find? (schemaKey ref) with
    | some target => contributors (remaining.without (schemaKey ref)) target
    | none => []
  | some _ => []
  | none => (partsOf part).attach.flatMap (fun inner => contributors remaining inner.1) ++
      ownEntries part
termination_by (remaining.length, sizeOf part)
decreasing_by
  · exact Prod.Lex.left _ _ (Schemas.length_without_lt found)
  · exact Prod.Lex.right _ (sizeOf_of_mem_partsOf inner.2)

inductive PartStep (schemas : Schemas) (whole next : Value) : Prop
  | part (direct : whole.ref? = none) (member : next ∈ partsOf whole)
  | target {ref} (held : whole.ref? = some (.text ref))
      (found : schemas.find? (schemaKey ref) = some next)

abbrev LeadsTo (schemas : Schemas) : Value → Value → Prop :=
  Relation.ReflTransGen (PartStep schemas)

/-- A part contributes an object that it leads to, however often keys come again on the way. -/
def Contributes (schemas : Schemas) (part : Value) (holder : Entries) : Prop :=
  ∃ whole, LeadsTo schemas part whole ∧ whole.ref? = none ∧ holder ∈ ownEntries whole

section Contributors

variable {schemas remaining : Schemas} {part target value : Value} {holder : Entries}
  {key ref : String}

theorem contributors_opened (held : part.ref? = some (.text ref))
    (found : remaining.find? (schemaKey ref) = some target) :
    contributors remaining part = contributors (remaining.without (schemaKey ref)) target := by
  rw [contributors, held]
  dsimp only
  split
  · rename_i other found'
    cases found.symm.trans found'
    rfl
  · rename_i absent
    cases found.symm.trans absent

theorem contributors_absent (held : part.ref? = some (.text ref))
    (absent : remaining.find? (schemaKey ref) = none) : contributors remaining part = [] := by
  rw [contributors, held]
  dsimp only
  split
  · rename_i found
    cases absent.symm.trans found
  · rfl

theorem contributors_broken (held : part.ref? = some value)
    (strange : ∀ ref, value = .text ref → False) : contributors remaining part = [] := by
  rw [contributors, held]
  split
  · rename_i ref same
    cases same
    exact (strange ref rfl).elim
  · rfl
  · rename_i none
    cases none

theorem contributors_direct (direct : part.ref? = none) :
    contributors remaining part =
      (partsOf part).flatMap (contributors remaining) ++ ownEntries part := by
  rw [contributors, direct]
  dsimp only
  rw [← List.flatMap_map, List.attach_map_subtype_val]

theorem PartStep.widen (step : PartStep (schemas.without key) part value) :
    PartStep schemas part value := by
  cases step with
  | part direct member => exact .part direct member
  | target held found =>
      rw [Schemas.find_without] at found
      split at found
      · cases found
      · exact .target held found

theorem LeadsTo.widen (leads : LeadsTo (schemas.without key) part value) :
    LeadsTo schemas part value :=
  Relation.ReflTransGen.mono (fun _ _ step => step.widen) _ _ leads

/-- What is led to through a key is led to from the schema under it without opening it again. -/
theorem LeadsTo.avoid (found : schemas.find? key = some target)
    (leads : LeadsTo schemas part value) :
    LeadsTo (schemas.without key) part value ∨ LeadsTo (schemas.without key) target value := by
  induction leads using Relation.ReflTransGen.head_induction_on with
  | refl => exact .inl .refl
  | @head whole next step _ ih =>
      rcases ih with later | later
      · cases step with
        | part direct member => exact .inl (later.head (.part direct member))
        | @target ref held opened =>
            by_cases same : schemaKey ref = key
            · rw [same, found] at opened
              cases opened
              exact .inr later
            · refine .inl (later.head (.target held ?_))
              rw [Schemas.find_without, if_neg same, opened]
      · exact .inr later

theorem contributes_reference (held : part.ref? = some value) :
    Contributes schemas part holder ↔ ∃ ref target, value = .text ref ∧
      schemas.find? (schemaKey ref) = some target ∧ Contributes schemas target holder := by
  constructor
  · rintro ⟨whole, leads, direct, own⟩
    rcases leads.cases_head with rfl | ⟨next, step, leads⟩
    · cases direct.symm.trans held
    · cases step with
      | part direct => cases direct.symm.trans held
      | target held' found =>
          exact ⟨_, _, Option.some.inj (held.symm.trans held'), found, whole, leads, direct, own⟩
  · rintro ⟨ref, target, rfl, found, whole, leads, direct, own⟩
    exact ⟨whole, leads.head (.target held found), direct, own⟩

theorem contributes_direct (direct : part.ref? = none) :
    Contributes schemas part holder ↔
      (∃ inner ∈ partsOf part, Contributes schemas inner holder) ∨ holder ∈ ownEntries part := by
  constructor
  · rintro ⟨whole, leads, direct', own⟩
    rcases leads.cases_head with rfl | ⟨next, step, leads⟩
    · exact .inr own
    · cases step with
      | part _ member => exact .inl ⟨next, member, whole, leads, direct', own⟩
      | target held => cases direct.symm.trans held
  · rintro (⟨inner, member, whole, leads, direct', own⟩ | own)
    · exact ⟨whole, leads.head (.part direct member), direct', own⟩
    · exact ⟨part, .refl, direct, own⟩

/-- That a key is opened once on a branch keeps nothing back. -/
theorem mem_contributors : holder ∈ contributors remaining part ↔
    Contributes remaining part holder := by
  induction remaining, part using contributors.induct with
  | case1 remaining part ref held target found ih =>
      rw [contributors_opened held found, ih, contributes_reference held]
      constructor
      · rintro ⟨whole, leads, direct, own⟩
        exact ⟨ref, target, rfl, found, whole, leads.widen, direct, own⟩
      · rintro ⟨_, _, ⟨⟩, found', whole, leads, direct, own⟩
        cases found.symm.trans found'
        exact ⟨whole, (leads.avoid found).elim id id, direct, own⟩
  | case2 remaining part ref held absent =>
      rw [contributors_absent held absent, contributes_reference held]
      simp [absent]
  | case3 remaining part value strange held =>
      rw [contributors_broken held strange, contributes_reference held]
      refine iff_of_false List.not_mem_nil ?_
      rintro ⟨ref, target, same, -⟩
      exact strange ref same
  | case4 remaining part direct ih =>
      rw [contributors_direct direct, contributes_direct direct, List.mem_append,
        List.mem_flatMap]
      refine or_congr_left (exists_congr fun inner => ?_)
      exact and_congr_right fun member => ih ⟨inner, member⟩

end Contributors

end TypedClient

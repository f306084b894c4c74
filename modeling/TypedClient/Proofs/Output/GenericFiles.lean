import TypedClient.Proofs.Output.Run

/-! Generic models in files: what stands in the file of a model is what the last operation wrote
there, so that a generic model stays as long as no operation behind it brings a plain one. -/

namespace TypedClient

/-- Nothing but generic models of some operations goes to a place. -/
structure KeepsGeneric (directory : Place) (schemas : Schemas) (target : OutputTarget)
    (place : Place) (apis : List Api) : Prop where
  models : ∀ api ∈ apis, ∀ models, api.found schemas = .ok models → ∀ model ∈ models,
    Path.absolute directory (modelPath (target.modelDir api) model) = place → model.generics ≠ []
  functions : ∀ api ∈ apis, api.sourceCode ≠ "" →
    Path.absolute directory (target.apiPath api) ≠ place
  queries : ∀ api ∈ apis, ∀ model ∈ api.queryModel,
    Path.absolute directory (queryPath (target.queryDir api) model) ≠ place
  indexes : ∀ api ∈ apis, Path.absolute directory (indexPath (target.modelDir api)) ≠ place

/-- A text that is the source of a generic model of one of the operations, whose file is at a
place. -/
def IsGenericSource (directory : Place) (schemas : Schemas) (target : OutputTarget) (place : Place)
    (apis : List Api) (text : String) : Prop :=
  ∃ api ∈ apis, ∃ models, api.found schemas = .ok models ∧ ∃ model ∈ models,
    Path.absolute directory (modelPath (target.modelDir api) model) = place ∧
      model.generics ≠ [] ∧ text = model.sourceCode

section Steps

variable {directory place : Place} {schemas : Schemas} {target : OutputTarget}
  {options : WriteOptions} {apis : List Api} {steps : List (List Edit)}

theorem put_of_keepsGeneric (keeps : KeepsGeneric directory schemas target place apis)
    (writes : List.Forall₂ (Api.WritesBy directory schemas target options) apis steps)
    {edit : Edit} (member : edit ∈ Edit.touching directory place steps.flatten) :
    ∃ path text, edit = .put path text ∧
      IsGenericSource directory schemas target place apis text := by
  rcases Edit.mem_touching.mp member with ⟨inside, here⟩
  rcases List.mem_flatten.mp inside with ⟨step, listed, held⟩
  rcases partner_of_mem writes listed with ⟨api, called, functions, edits, rfl, kind, made⟩
  rcases List.mem_append.mp held with function | interfaces
  · rcases kind with rfl | ⟨given, text, rfl⟩
    · cases function
    · rw [List.mem_singleton.mp function] at here
      exact absurd here (keeps.functions api called given)
  · rcases mem_interfaceEdits made interfaces with ⟨model, given, path, -⟩ |
      ⟨models, found, ⟨model, written, rfl⟩ | ⟨added, -, rfl⟩⟩
    · rw [Edit.place, path] at here
      exact absurd here (keeps.queries api called model given)
    · exact ⟨_, _, rfl, api, called, models, found, model, written, here,
        keeps.models api called models found model written here, rfl⟩
    · exact absurd here (keeps.indexes api called)

theorem foldl_fill_puts {held : Option Content} {front back : List Edit} {fit : String → Prop}
    (given : back ≠ []) (puts : ∀ edit ∈ back, ∃ path text, edit = .put path text ∧ fit text) :
    ∃ text, fit text ∧ (front ++ back).foldl Edit.fill held = some (.text text) := by
  rcases List.eq_nil_or_concat back with nothing | ⟨others, last, rfl⟩
  · exact absurd nothing given
  · rcases puts last (by simp) with ⟨path, text, rfl, fits⟩
    refine ⟨text, fits, ?_⟩
    rw [List.concat_eq_append, ← List.append_assoc, Edit.foldl_fill_put]

end Steps

/-- A generic model is not replaced by a plain one, unless a later operation brings it. -/
theorem generic_file_kept {schemas : Schemas} {target : OutputTarget} {options : WriteOptions}
    {earlier later : List Api} {api : Api} {models : List Model} {model : Model}
    {before after : Workspace} {result : WriteResult}
    (ran : Yields (writeAll (earlier ++ api :: later) schemas target options) before result after)
    (housed : ∀ place, before.disk.Housed place)
    (found : api.found schemas = .ok models) (member : model ∈ models)
    (keeps : KeepsGeneric before.directory schemas target
      (Path.absolute before.directory (modelPath (target.modelDir api) model)) (api :: later)) :
    ∃ text, IsGenericSource before.directory schemas target
        (Path.absolute before.directory (modelPath (target.modelDir api) model)) (api :: later)
        text ∧
      after.disk.file? (Path.absolute before.directory (modelPath (target.modelDir api) model)) =
        some (.text text) := by
  rcases performed_of_run ran fun _ _ => housed _ with ⟨⟨steps, writes, performed⟩, -⟩
  have writes' := List.forall₂_drop earlier.length writes
  rw [List.drop_left] at writes'
  generalize place_eq : Path.absolute before.directory (modelPath (target.modelDir api) model) =
    place at keeps ⊢
  have puts := fun edit member => @put_of_keepsGeneric _ _ _ _ _ _ _ keeps writes' edit member
  have given : Edit.touching before.directory place (steps.drop earlier.length).flatten ≠ [] := by
    generalize steps.drop earlier.length = back at writes'
    cases writes' with
    | @cons _ _ _ others own _ =>
        rcases own with ⟨function, edits, rfl, -, made⟩
        have inside := List.mem_append_left others.flatten
          (List.mem_append_right function (put_mem_interfaceEdits made found member))
        exact List.ne_nil_of_mem (Edit.mem_touching.mpr ⟨inside, place_eq⟩)
  have split : steps.flatten =
      (steps.take earlier.length).flatten ++ (steps.drop earlier.length).flatten := by
    rw [← List.flatten_append, List.take_append_drop]
  rw [performed.files, Edit.replay_at, split, Edit.touching_append]
  exact foldl_fill_puts given puts

section Instances

def containerApi (url sourceCode : String) (generics : List String) : Api :=
  { plainApi url "" with
    models := fun _ =>
      pure [{ sourceCode, typeName := "Result", fileName := "Result", generics }] }

def containerApis : List Api :=
  [containerApi "/a" "plain" []] ++
    containerApi "/b" "generic" ["T"] :: [containerApi "/c" "generic again" ["T"]]

def containerWorkspace : Workspace :=
  { disk :=
      { directories := [[], ["o"], ["o", "model"]]
        files := [(["o", "model", "Result.ts"], .text "generic again"),
          (["o", "model", "index.ts"],
            .text "import Result from './Result';\n\nexport \x7b\n  Result,\n\x7d\n")] }
    reported := List.replicate 3 "o/model/Result.ts" }

theorem writeAll_containers : Yields (writeAll containerApis [] { functions := "o" } {}) {}
    { functions := 0, modelFiles := ["o/model/Result.ts"] } containerWorkspace :=
  yields_of_check (by decide +kernel)

theorem keepsGeneric_containers : KeepsGeneric [] [] { functions := "o" }
    ["o", "model", "Result.ts"]
    [containerApi "/b" "generic" ["T"], containerApi "/c" "generic again" ["T"]] where
  models := by
    intro api member models found model listed _
    simp only [List.mem_cons, List.not_mem_nil, or_false] at member
    rcases member with rfl | rfl
    · cases found
      rw [List.mem_singleton.mp listed]
      decide
    · cases found
      rw [List.mem_singleton.mp listed]
      decide
  functions := by decide +kernel
  queries := by
    intro api member model given
    simp only [List.mem_cons, List.not_mem_nil, or_false] at member
    rcases member with rfl | rfl <;> cases given
  indexes := by decide +kernel

theorem generic_file_kept_containers :
    ∃ text, IsGenericSource [] [] { functions := "o" } ["o", "model", "Result.ts"]
        [containerApi "/b" "generic" ["T"], containerApi "/c" "generic again" ["T"]] text ∧
      containerWorkspace.disk.file? ["o", "model", "Result.ts"] = some (.text text) := by
  have housed : ∀ place, Disk.Housed {} place := by
    intro place stands
    cases stands
  have place : Path.absolute [] (modelPath (OutputTarget.modelDir { functions := "o" }
      (containerApi "/b" "generic" ["T"]))
      { sourceCode := "generic", typeName := "Result", fileName := "Result", generics := ["T"] }) =
        ["o", "model", "Result.ts"] := by decide +kernel
  have kept := generic_file_kept writeAll_containers housed rfl (List.mem_singleton.mpr rfl)
  rw [place] at kept
  exact kept keepsGeneric_containers

end Instances

end TypedClient

import TypedClient.Proofs.Output.Edits

namespace TypedClient

/-- One call of the writer of models. -/
structure ModelCall where
  models : List Model
  asGlobal : Bool := false

namespace ModelCall

def write (modelDir : String) (call : ModelCall) : Work (List String) :=
  writeModelFiles call.models modelDir call.asGlobal

/-- The names of the files, as they come. -/
def names (call : ModelCall) : List String := call.models.map Model.fileName

def edits (modelDir : String) (call : ModelCall) : List Edit :=
  modelEdits call.models modelDir call.asGlobal (call.names.map listing)

def batch (modelDir : String) (call : ModelCall) : Batch :=
  { path := indexPath modelDir, asGlobal := call.asGlobal, names := call.names }

end ModelCall

section Calls

variable {directory : Place} {modelDir : String} {call : ModelCall} {calls : List ModelCall}
  {before after : Workspace} {results : List (List String)}

/-- Of the edits of a call only the last one goes to the index. -/
theorem touching_modelEdits (named : ∀ model ∈ call.models, IsModelName model.fileName) :
    Edit.touching directory (Path.absolute directory (indexPath modelDir)) (call.edits modelDir) =
      [(call.batch modelDir).edit] := by
  have apart : Edit.touching directory (Path.absolute directory (indexPath modelDir))
      (call.models.map fun model => .put (modelPath modelDir model) model.sourceCode) = [] := by
    apply Edit.touching_eq_nil
    intro edit member
    rcases List.mem_map.mp member with ⟨model, held, rfl⟩
    exact place_modelPath_ne (named model held) directory modelDir
  rw [ModelCall.edits, modelEdits, Edit.touching_append, apart, List.nil_append]
  unfold Edit.touching
  rw [List.filter_cons_of_pos (by simp [Edit.place, Edit.path])]
  rfl

theorem touching_calls (named : ∀ call ∈ calls, ∀ model ∈ call.models, IsModelName model.fileName) :
    Edit.touching directory (Path.absolute directory (indexPath modelDir))
        (calls.flatMap (ModelCall.edits modelDir)) =
      (calls.map (ModelCall.batch modelDir)).map Batch.edit := by
  induction calls with
  | nil => rfl
  | cons call rest ih =>
      rw [List.flatMap_cons, Edit.touching_append, touching_modelEdits (named call (by simp)),
        ih fun other member => named other (by simp [member])]
      rfl

theorem performed_of_calls
    (named : ∀ call ∈ calls, ∀ model ∈ call.models, IsModelName model.fileName)
    (ran : Yields (calls.mapM (ModelCall.write modelDir)) before results after)
    (housed : before.disk.Housed (Path.absolute before.directory (indexPath modelDir))) :
    Performed (calls.flatMap (ModelCall.edits modelDir)) before after := by
  induction calls generalizing before results with
  | nil =>
      rw [((yields_mapM_nil _ _ _ _).mp ran).2]
      exact .nothing rfl rfl
  | cons call rest ih =>
      rcases (yields_mapM_cons _ _ _ _ _ _).mp ran with ⟨files, between, others, wrote, later, -⟩
      rcases performed_of_writeModelFiles wrote housed with ⟨-, added, made, first⟩
      rw [modelListings_of_named (named call (by simp))] at made
      cases made
      have housed' := first.housed _ housed
      rw [← first.directory] at housed'
      exact first.append (ih (fun other member => named other (by simp [member])) later housed')

end Calls

/-- Models are written to a directory without an index, call by call. -/
structure IndexRun (modelDir : String) (calls : List ModelCall) (before : Workspace)
    (results : List (List String)) (after : Workspace) : Prop where
  absent : before.disk.file? (Path.absolute before.directory (indexPath modelDir)) = none
  ran : Yields (calls.mapM (ModelCall.write modelDir)) before results after
  named : ∀ call ∈ calls, ∀ model ∈ call.models, IsModelName model.fileName

namespace IndexRun

variable {modelDir : String} {calls : List ModelCall} {last : ModelCall} {before after : Workspace}
  {results : List (List String)}

theorem performed (run : IndexRun modelDir calls before results after) :
    Performed (calls.flatMap (ModelCall.edits modelDir)) before after := by
  apply performed_of_calls run.named run.ran
  intro stands
  rw [run.absent] at stands
  cases stands

theorem named_names (run : IndexRun modelDir calls before results after) :
    ∀ name ∈ calls.flatMap ModelCall.names, IsModelName name := by
  intro name member
  rcases List.mem_flatMap.mp member with ⟨call, held, inside⟩
  rcases List.mem_map.mp inside with ⟨model, listed, rfl⟩
  exact run.named call held model listed

/-- What stands in the index: the names of all calls, in the way of the last one. -/
theorem file?_index (run : IndexRun modelDir calls before results after)
    (ends : calls.getLast? = some last) :
    after.disk.file? (Path.absolute before.directory (indexPath modelDir)) =
      some (.text (indexText last.asGlobal ((calls.flatMap ModelCall.names).map listing))) := by
  have ends' : (calls.map (ModelCall.batch modelDir)).getLast? = some (last.batch modelDir) := by
    rw [List.getLast?_map, ends]
    rfl
  have names : (calls.map (ModelCall.batch modelDir)).flatMap Batch.names =
      calls.flatMap ModelCall.names := List.flatMap_map ..
  have fit : ∀ name ∈ [] ++ (calls.map (ModelCall.batch modelDir)).flatMap Batch.names,
      IsModelName name := by
    rw [List.nil_append, names]
    exact run.named_names
  have nothing : listedModels (shownText none) = ([] : List String).eraseDups.map listing :=
    listedModels_empty
  rw [run.performed.files, Edit.replay_at, touching_calls run.named, run.absent,
    foldl_batches ends' fit nothing, List.nil_append, names]
  rfl

theorem ready_index (run : IndexRun modelDir calls before results after)
    (ends : calls.getLast? = some last) :
    after.disk.Ready before.directory (indexPath modelDir) := by
  apply run.performed.ready (last.batch modelDir).edit
  exact List.mem_flatMap.mpr
    ⟨last, List.mem_of_getLast? ends, List.mem_append_right _ (List.mem_singleton.mpr rfl)⟩

theorem ready_again (run : IndexRun modelDir calls before results after)
    (ends : calls.getLast? = some last) {call : ModelCall}
    (known : call.names ⊆ calls.flatMap ModelCall.names) :
    ∀ edit ∈ call.edits modelDir, after.disk.Ready before.directory edit.path := by
  intro edit member
  rcases List.mem_append.mp member with written | index
  · rcases List.mem_map.mp written with ⟨model, held, rfl⟩
    rcases List.mem_flatMap.mp (known (List.mem_map_of_mem held)) with ⟨earlier, called, named⟩
    rcases List.mem_map.mp named with ⟨other, listed, same⟩
    have path : modelPath modelDir other = modelPath modelDir model := by
      rw [modelPath, same, modelPath]
    have ready := run.performed.ready (.put (modelPath modelDir other) other.sourceCode)
      (List.mem_flatMap.mpr ⟨earlier, called,
        List.mem_append_left _ (List.mem_map.mpr ⟨other, listed, rfl⟩)⟩)
    exact path ▸ ready
  · rw [List.mem_singleton.mp index]
    exact run.ready_index ends

theorem write_again (run : IndexRun modelDir calls before results after)
    (ends : calls.getLast? = some last) {call : ModelCall}
    (known : call.names ⊆ calls.flatMap ModelCall.names) :
    ∃ files again, Yields (call.write modelDir) after files again ∧
      IndexRun modelDir (calls ++ [call]) before (results ++ [files]) again := by
  have named : ∀ model ∈ call.models, IsModelName model.fileName :=
    fun model member => run.named_names _ (known (List.mem_map_of_mem member))
  have ready := run.ready_again ends known
  have readable : ∀ bytes, after.disk.file?
      (Path.absolute before.directory (indexPath modelDir)) ≠ some (.binary bytes) := by
    intro bytes
    rw [run.file?_index ends]
    intro differs
    cases differs
  rw [← run.performed.directory] at ready readable
  rcases exists_writeModelFiles (modelListings_of_named named after.directory) ready readable with
    ⟨again, ran⟩
  refine ⟨_, again, ran, run.absent, run.ran.mapM_append ?_, ?_⟩
  · exact (yields_mapM_cons _ _ _ _ _ _).mpr
      ⟨_, again, [], ran, (yields_mapM_nil _ _ _ _).mpr ⟨rfl, rfl⟩, rfl⟩
  · intro other member
    rcases List.mem_append.mp member with old | new
    · exact run.named other old
    · exact List.mem_singleton.mp new ▸ named

theorem fileAt?_index (run : IndexRun modelDir calls before results after)
    (ends : calls.getLast? = some last) :
    after.disk.fileAt? before.directory (indexPath modelDir) =
      some (Path.absolute before.directory (indexPath modelDir),
        .text (indexText last.asGlobal
          ((calls.flatMap ModelCall.names).eraseDups.map listing))) := by
  rw [Disk.fileAt?_of_target (run.ready_index ends).target, run.file?_index ends,
    indexText_eraseDups fun name member => (run.named_names name member).ne_empty]
  rfl

/-- The index is the ordered union of everything that was written. It can be read back, and known
models that are written again leave it as it is. -/
theorem lists_union (run : IndexRun modelDir calls before results after)
    (ends : calls.getLast? = some last) :
    let names := (calls.flatMap ModelCall.names).eraseDups
    let index := indexText last.asGlobal (names.map listing)
    after.disk.fileAt? before.directory (indexPath modelDir) =
        some (Path.absolute before.directory (indexPath modelDir), .text index) ∧
      listedModels (reread index) = names.map listing ∧
      ∀ call : ModelCall, call.asGlobal = last.asGlobal → call.names ⊆ names →
        ∃ files again, Yields (call.write modelDir) after files again ∧
          again.disk.fileAt? before.directory (indexPath modelDir) =
            some (Path.absolute before.directory (indexPath modelDir), .text index) := by
  intro names index
  refine ⟨run.fileAt?_index ends, ?_, ?_⟩
  · have same : index = indexText last.asGlobal ((calls.flatMap ModelCall.names).map listing) :=
      indexText_eraseDups (fun name member => (run.named_names name member).ne_empty) last.asGlobal
    rw [same]
    exact listedModels_indexText run.named_names last.asGlobal
  · intro call flag known
    have known' : call.names ⊆ calls.flatMap ModelCall.names :=
      fun name member => List.mem_eraseDups.mp (known member)
    have nothing_new : ((calls ++ [call]).flatMap ModelCall.names).eraseDups = names := by
      rw [List.flatMap_append, List.flatMap_singleton, eraseDups_append_of_subset known']
    rcases run.write_again ends known' with ⟨files, again, ran, run'⟩
    refine ⟨files, again, ran, ?_⟩
    rw [run'.fileAt?_index List.getLast?_concat, nothing_new, flag]

end IndexRun

section Instances

def plainModel (fileName sourceCode : String) : Model :=
  { sourceCode, typeName := fileName, fileName }

def globalCall : ModelCall :=
  { models := [plainModel "C" "c", plainModel "B" "b"], asGlobal := true }

def sharedCalls : List ModelCall :=
  [{ models := [plainModel "B" "b", plainModel "A" "a"] }, globalCall]

def sharedIndex : String :=
  "import _B from './B';\nimport _A from './A';\nimport _C from './C';\n\ndeclare global \x7b\n" ++
    "  type B = _B;\n  type A = _A;\n  type C = _C;\n\x7d\n"

def sharedWorkspace : Workspace :=
  { disk :=
      { directories := [[], ["m"]]
        files := [(["m", "B.ts"], .text "b"), (["m", "A.ts"], .text "a"),
          (["m", "index.ts"], .text sharedIndex), (["m", "C.ts"], .text "c")] } }

theorem indexRun_shared : IndexRun "m" sharedCalls {}
    [["m/B.ts", "m/A.ts"], ["m/C.ts", "m/B.ts"]] sharedWorkspace where
  absent := by decide +kernel
  ran := yields_of_check (by decide +kernel)
  named := by decide +kernel

theorem lists_union_shared :
    sharedWorkspace.disk.fileAt? [] "m/index.ts" = some (["m", "index.ts"], .text sharedIndex) ∧
      listedModels (reread sharedIndex) = ["B", "A", "C"].map listing ∧
      ∀ call : ModelCall, call.asGlobal = true → call.names ⊆ ["B", "A", "C"] →
        ∃ files again, Yields (call.write "m") sharedWorkspace files again ∧
          again.disk.fileAt? [] "m/index.ts" =
            some (["m", "index.ts"], .text sharedIndex) := by
  have names : (sharedCalls.flatMap ModelCall.names).eraseDups = ["B", "A", "C"] := by
    decide +kernel
  have index : indexText true (["B", "A", "C"].map listing) = sharedIndex := by decide +kernel
  have ends : sharedCalls.getLast? = some globalCall := rfl
  have flag : globalCall.asGlobal = true := rfl
  have held := IndexRun.lists_union indexRun_shared ends
  dsimp only at held
  rw [names, flag, index] at held
  exact held

end Instances

end TypedClient

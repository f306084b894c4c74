import TypedClient.Proofs.Closure.Imports
import TypedClient.Proofs.Naming.Coincidence
import TypedClient.Proofs.Naming.Solid
import TypedClient.Proofs.Output.Run

/-!
Where a run writes. Whatever becomes of it, it leaves the files outside of the directories of the
functions and of the models, unless the path of an operation goes up or a name holds a slash.
-/

namespace TypedClient

/-- A way from one workspace to another on which files are written and reported in allowed places
only. -/
structure Workspace.KeepsTo (allowed : Place → Prop) (before after : Workspace) : Prop where
  directory : after.directory = before.directory
  files : ∀ place, ¬ allowed place → after.disk.file? place = before.disk.file? place
  reported : ∀ path ∈ after.reported, path ∈ before.reported ∨
    allowed (Path.absolute before.directory path)

namespace Workspace.KeepsTo

variable {allowed : Place → Prop} {first second third : Workspace}

theorem refl (workspace : Workspace) : workspace.KeepsTo allowed workspace where
  directory := rfl
  files := fun _ _ => rfl
  reported := fun _ member => .inl member

theorem trans (keeps : first.KeepsTo allowed second) (keeps' : second.KeepsTo allowed third) :
    first.KeepsTo allowed third where
  directory := keeps'.directory.trans keeps.directory
  files := fun place outside => (keeps'.files place outside).trans (keeps.files place outside)
  reported := by
    intro path member
    rcases keeps'.reported path member with earlier | inside
    · exact keeps.reported path earlier
    · rw [keeps.directory] at inside
      exact .inr inside

end Workspace.KeepsTo

namespace Disk

variable {disk : Disk}

/-- Making directories touches no file, also when one of them cannot be made. -/
theorem file?_makeDirectories (disk : Disk) (places : List Place) :
    (disk.makeDirectories places).1.file? = disk.file? := by
  induction places generalizing disk with
  | nil => rfl
  | cons place rest ih =>
      rw [makeDirectories]
      split
      · rename_i made makes
        rw [ih, (makeDirectory_spec makes).2.1]
      · rfl

end Disk

namespace Work

section Frame

variable {α β : Type} {allowed : Place → Prop} {directory : Place}

/-- What a computation leaves behind, whatever it comes to. -/
def left (action : Work α) (before : Workspace) : Workspace :=
  ((ExceptT.run action).run before).2

/-- A computation that keeps to the allowed places, seen from a directory. -/
def KeepsTo (allowed : Place → Prop) (directory : Place) (action : Work α) : Prop :=
  ∀ before : Workspace, before.directory = directory → before.KeepsTo allowed (left action before)

theorem keepsTo_of_left {action : Work α} (same : ∀ before, left action before = before) :
    KeepsTo allowed directory action := by
  intro before _
  rw [same]
  exact .refl before

theorem left_bind {action : Work α} {next : α → Work β} {before : Workspace}
    (first : before.KeepsTo allowed (left action before))
    (later : ∀ value after, Yields action before value after →
      after.KeepsTo allowed (left (next value) after)) :
    before.KeepsTo allowed (left (action >>= next) before) := by
  unfold left at first ⊢
  rw [run_bind]
  cases ran : (ExceptT.run action).run before with
  | mk outcome between =>
      rw [ran] at first
      cases outcome with
      | error failure => exact first
      | ok value => exact first.trans (later value between ran)

theorem keepsTo_bind {action : Work α} {next : α → Work β}
    (first : KeepsTo allowed directory action)
    (later : ∀ before value after, Yields action before value after →
      KeepsTo allowed directory (next value)) :
    KeepsTo allowed directory (action >>= next) := by
  intro before here
  refine left_bind (first before here) fun value after ran => ?_
  have kept := (first before here).directory
  rw [left, ran] at kept
  exact later before value after ran after (kept.trans here)

theorem keepsTo_pure (value : α) : KeepsTo allowed directory (pure value) :=
  keepsTo_of_left fun _ => rfl

theorem keepsTo_throw (failure : Error) : KeepsTo allowed directory (throw failure : Work α) :=
  keepsTo_of_left fun _ => rfl

theorem keepsTo_get : KeepsTo allowed directory (getThe Workspace) :=
  keepsTo_of_left fun _ => rfl

theorem keepsTo_liftExcept (source : Except Error α) :
    KeepsTo allowed directory (liftExcept source) :=
  keepsTo_of_left fun _ => by cases source <;> rfl

theorem keepsTo_ofNoted (action : Noted α) : KeepsTo allowed directory (ofNoted action) := by
  intro before _
  exact ⟨rfl, fun _ _ => rfl, fun _ member => .inl member⟩

theorem keepsTo_report {path : String} (inside : allowed (Path.absolute directory path)) :
    KeepsTo allowed directory (report path) := by
  intro before here
  refine ⟨rfl, fun _ _ => rfl, fun other member => ?_⟩
  rcases List.mem_append.mp member with earlier | own
  · exact .inl earlier
  · rw [List.mem_singleton.mp own, here]
    exact .inr inside

theorem keepsTo_forM {items : List α} {f : α → Work PUnit}
    (each : ∀ item ∈ items, KeepsTo allowed directory (f item)) :
    KeepsTo allowed directory (items.forM f) := by
  induction items with
  | nil => exact keepsTo_pure _
  | cons item rest ih =>
      exact keepsTo_bind (each item (by simp)) fun _ _ _ _ =>
        ih fun other member => each other (by simp [member])

theorem keepsTo_mapM {items : List α} {f : α → Work β}
    (each : ∀ item ∈ items, KeepsTo allowed directory (f item)) :
    KeepsTo allowed directory (items.mapM f) := by
  induction items with
  | nil => exact keepsTo_pure _
  | cons item rest ih =>
      rw [List.mapM_cons]
      exact keepsTo_bind (each item (by simp)) fun _ _ _ _ =>
        keepsTo_bind (ih fun other member => each other (by simp [member])) fun _ _ _ _ =>
          keepsTo_pure _

theorem keepsTo_foldlM {items : List α} {f : β → α → Work β}
    (each : ∀ item ∈ items, ∀ value, KeepsTo allowed directory (f value item)) (start : β) :
    KeepsTo allowed directory (items.foldlM f start) := by
  induction items generalizing start with
  | nil => exact keepsTo_pure _
  | cons item rest ih =>
      rw [List.foldlM_cons]
      exact keepsTo_bind (each item (by simp) start) fun _ value _ _ =>
        ih (fun other member => each other (by simp [member])) value

theorem keepsTo_fileText (path : String) : KeepsTo allowed directory (fileText path) := by
  unfold fileText fileAt?
  refine keepsTo_bind (keepsTo_bind keepsTo_get fun _ _ _ _ => keepsTo_pure _)
    fun _ found _ _ => ?_
  rcases found with - | ⟨place, text | bytes⟩
  · exact keepsTo_pure _
  · exact keepsTo_pure _
  · exact keepsTo_throw _

/-- Where a file replaces another, only its place changes. -/
theorem keepsTo_replaceFile {path : String} (inside : allowed (Path.absolute directory path))
    (failure : PathFault → Error) (text : String) :
    KeepsTo allowed directory (replaceFile failure path text) := by
  intro before here
  refine left_bind (keepsTo_get before here) fun value after got => ?_
  obtain ⟨rfl, rfl⟩ := (yields_get _ _ _).mp got
  split
  · rename_i place found
    refine ⟨rfl, fun other outside => ?_, fun _ member => .inl member⟩
    have own := Disk.eq_of_locate (Disk.target_eq_ok.mp found).1
    rw [here] at own
    have apart : other ≠ place := by
      rintro rfl
      exact outside (own ▸ inside)
    have changed := congrFun (Disk.file?_put after.disk place (.text text)) other
    rw [Function.update_of_ne apart] at changed
    exact changed
  · exact keepsTo_throw _ after here

/-- Saving a file touches the place that its path leads to, and no other. -/
theorem keepsTo_saveFile {path : String} (inside : allowed (Path.absolute directory path))
    (text : String) : KeepsTo allowed directory (saveFile path text) := by
  intro before here
  refine left_bind (keepsTo_get before here) fun value after got => ?_
  obtain ⟨rfl, rfl⟩ := (yields_get _ _ _).mp got
  have files := Disk.file?_makeDirectories after.disk
    (Disk.above (Path.absolute after.directory path).dropLast)
  dsimp only
  generalize Disk.makeDirectories _ _ = made at files ⊢
  obtain ⟨disk, fault⟩ := made
  refine left_bind ⟨rfl, fun place _ => congrFun files place, fun _ member => .inl member⟩
    fun _ after kept => ?_
  obtain rfl := (yields_set _ _ _ _).mp kept
  cases fault with
  | some fault =>
      dsimp only
      exact keepsTo_throw _ _ here
  | none =>
      dsimp only
      exact keepsTo_replaceFile inside _ text _ here

end Frame

end Work

section Run

variable {allowed : Place → Prop} {directory : Place} {schemas : Schemas} {target : OutputTarget}
  {options : WriteOptions} {api : Api}

theorem keepsTo_write {path : String} (inside : allowed (Path.absolute directory path))
    (call : FileCall) : Work.KeepsTo allowed directory (call.write path) := by
  unfold FileCall.write writeApiFile
  split
  · exact Work.keepsTo_pure false
  · refine Work.keepsTo_bind (Work.keepsTo_fileText path) fun _ content _ _ => ?_
    split
    · exact Work.keepsTo_pure false
    · refine Work.keepsTo_bind Work.keepsTo_get fun _ found _ _ => ?_
      refine Work.keepsTo_bind (Work.keepsTo_liftExcept _) fun _ imports _ _ => ?_
      exact Work.keepsTo_bind (Work.keepsTo_saveFile inside _) fun _ _ _ _ => Work.keepsTo_pure true

theorem keepsTo_writeQuery
    (inside : ∀ model ∈ api.queryModel,
      allowed (Path.absolute directory (queryPath (target.queryDir api) model))) :
    Work.KeepsTo allowed directory (writeQuery target options api) := by
  unfold writeQuery
  cases asked : api.queryModel with
  | none => exact Work.keepsTo_pure ()
  | some model =>
      have own := inside model asked
      refine Work.keepsTo_bind ?_ fun _ path _ ran => ?_
      · unfold writeQueryFile
        refine Work.keepsTo_bind Work.keepsTo_get fun _ found _ _ => ?_
        dsimp only
        split
        · rw [pure_bind]
          exact Work.keepsTo_bind (Work.keepsTo_saveFile own _) fun _ _ _ _ => Work.keepsTo_pure _
        · refine Work.keepsTo_bind (Work.keepsTo_liftExcept _) fun _ path _ _ => ?_
          rw [pure_bind]
          exact Work.keepsTo_bind (Work.keepsTo_saveFile own _) fun _ _ _ _ => Work.keepsTo_pure _
      · obtain ⟨text, -, rfl, -⟩ := yields_writeQueryFile_iff.mp ran
        exact Work.keepsTo_report own

theorem eq_of_writeModelFiles {models : List Model} {modelDir : String} {asGlobal : Bool}
    {before after : Workspace} {written : List String}
    (ran : Yields (writeModelFiles models modelDir asGlobal) before written after) :
    written = models.map (modelPath modelDir) := by
  obtain ⟨-, _, -, indexed⟩ := (yields_bind _ _ _ _ _).mp ran
  obtain ⟨content, _, -, listed⟩ := (yields_bind _ _ _ _ _).mp indexed
  obtain ⟨workspace, _, -, made⟩ := (yields_bind _ _ _ _ _).mp listed
  obtain ⟨added, _, -, saved⟩ := (yields_bind _ _ _ _ _).mp made
  obtain ⟨-, _, -, returns⟩ := (yields_bind _ _ _ _ _).mp saved
  exact ((yields_pure _ _ _ _).mp returns).1

theorem keepsTo_writeModelFiles {models : List Model} {modelDir : String} (asGlobal : Bool)
    (inside : ∀ model ∈ models, allowed (Path.absolute directory (modelPath modelDir model)))
    (index : allowed (Path.absolute directory (indexPath modelDir))) :
    Work.KeepsTo allowed directory (writeModelFiles models modelDir asGlobal) := by
  unfold writeModelFiles
  refine Work.keepsTo_bind
    (Work.keepsTo_forM fun model member => Work.keepsTo_saveFile (inside model member) _)
    fun _ _ _ _ => ?_
  refine Work.keepsTo_bind (Work.keepsTo_fileText _) fun _ content _ _ => ?_
  refine Work.keepsTo_bind Work.keepsTo_get fun _ found _ _ => ?_
  refine Work.keepsTo_bind (Work.keepsTo_mapM fun model _ => ?_) fun _ added _ _ => ?_
  · exact Work.keepsTo_bind (Work.keepsTo_liftExcept _) fun _ path _ _ => Work.keepsTo_pure _
  · exact Work.keepsTo_bind (Work.keepsTo_saveFile index _) fun _ _ _ _ => Work.keepsTo_pure _

/-- Writing an operation keeps to the places of its function and of its interfaces. -/
theorem keepsTo_writeApi
    (inside : ∀ path ∈ target.apiPath api :: api.interfacePaths schemas target,
      allowed (Path.absolute directory path)) (result : WriteResult) :
    Work.KeepsTo allowed directory (writeApi schemas target options result api) := by
  obtain ⟨own, interfaces⟩ := List.forall_mem_cons.mp inside
  rw [writeApi_eq, writeStages]
  refine Work.keepsTo_bind (keepsTo_write own _) fun _ written _ _ => ?_
  refine Work.keepsTo_bind ?_ fun _ _ _ _ => ?_
  · cases written with
    | false => exact Work.keepsTo_pure ()
    | true => exact Work.keepsTo_report own
  refine Work.keepsTo_bind (keepsTo_writeQuery fun model asked => interfaces _ ?_)
    fun _ _ _ _ => ?_
  · simp [Api.interfacePaths, Option.mem_def.mp asked]
  refine Work.keepsTo_bind (Work.keepsTo_ofNoted _) fun _ models _ ran => ?_
  have found : api.found schemas = .ok models := (Work.yields_ofNoted.mp ran).1
  have placed : ∀ model ∈ models,
      allowed (Path.absolute directory (modelPath (target.modelDir api) model)) := by
    intro model member
    apply interfaces
    simp only [Api.interfacePaths, found, List.mem_append, List.mem_map]
    exact .inl (.inr ⟨model, member, rfl⟩)
  have index : allowed (Path.absolute directory (indexPath (target.modelDir api))) :=
    interfaces _ (by simp [Api.interfacePaths])
  unfold writeFound
  split
  · exact Work.keepsTo_pure _
  · refine Work.keepsTo_bind (keepsTo_writeModelFiles _ placed index) fun _ written _ wrote => ?_
    rw [eq_of_writeModelFiles wrote]
    refine Work.keepsTo_bind (Work.keepsTo_forM fun path member => ?_)
      fun _ _ _ _ => Work.keepsTo_pure _
    obtain ⟨model, inside, rfl⟩ := List.mem_map.mp member
    exact Work.keepsTo_report (placed model inside)

/-- Writing operations keeps to their places, whatever becomes of the run. -/
theorem keepsTo_writeAll {apis : List Api}
    (inside : ∀ api ∈ apis, ∀ path ∈ target.apiPath api :: api.interfacePaths schemas target,
      allowed (Path.absolute directory path)) :
    Work.KeepsTo allowed directory (writeAll apis schemas target options) :=
  Work.keepsTo_foldlM (fun api member => keepsTo_writeApi (inside api member)) _

end Run

def Operation.placeFrom (operation : Operation) (root : Place) : Place :=
  (Path.parts operation.urlNames.dirName).foldl Path.enter root

namespace OutputTarget

def functionDir (target : OutputTarget) : String :=
  if Path.endsWith ".ts" target.functions then Path.parent target.functions else target.functions

/-- A place below the directory of the functions or below that of the models. -/
def Holds (target : OutputTarget) (directory place : Place) : Prop :=
  Path.Below (Path.absolute directory target.functionDir) place ∨
    ∃ models ∈ target.models, models ≠ "" ∧ Path.Below (Path.absolute directory models) place

/-- A target that takes all functions in one file, or the path of an operation that never leads
above the directory of the functions. -/
def Admits (target : OutputTarget) (operation : Operation) : Prop :=
  Path.endsWith ".ts" target.functions = true ∨
    Path.staysInside (Path.parts operation.urlNames.dirName) = true

section Places

variable {target : OutputTarget} {operation : Operation} {api : Api} (directory : Place)

theorem isStep_fileName (operation : Operation) :
    Path.IsStep (operation.urlNames.fileName ++ ".ts") :=
  Path.isStep_source (slash_fileName operation.path)

/-- The path of an operation leads on from the directory of the functions, step by step. -/
theorem absolute_filePath (operation : Operation) (functions : String) :
    Path.absolute directory (Path.join functions operation.filePath) =
      operation.placeFrom (Path.absolute directory functions) ++
        [operation.urlNames.fileName ++ ".ts"] := by
  have relative : Path.isAbsolute operation.urlNames.dirName = false := by
    simpa [Path.isAbsolute, Operation.urlNames] using head_dirName operation.path
  obtain ⟨way, start⟩ :=
    Path.join_of_isStep (isStep_fileName operation) operation.urlNames.dirName
  rw [Operation.filePath, Path.absolute_join_of_relative (start.trans relative), way,
    List.foldl_append, List.foldl_cons, List.foldl_nil,
    Path.enter_of_isStep (isStep_fileName operation), Operation.placeFrom]

/-- In a directory of functions every operation has a file in the place that its path leads to. -/
theorem absolute_apiPath_beside (single : Path.endsWith ".ts" target.functions = false)
    (filed : api.filePath = operation.filePath) :
    Path.absolute directory (target.apiPath api) =
        operation.placeFrom (Path.absolute directory target.functions) ++
          [operation.urlNames.fileName ++ ".ts"] ∧
      Path.absolute directory (Path.parent (target.apiPath api)) =
        operation.placeFrom (Path.absolute directory target.functions) := by
  have named : target.apiPath api = Path.join target.functions operation.filePath := by
    simp only [apiPath, paths, single, filed, Bool.false_eq_true, if_false]
  have placed := absolute_filePath directory operation target.functions
  rw [← named] at placed
  have step := isStep_fileName operation
  have whole : Path.name (target.apiPath api) = operation.urlNames.fileName ++ ".ts" := by
    rw [named, Path.name_join, Operation.filePath, Path.name_join, Path.name_of_whole step.whole]
  have split := Path.absolute_parent (whole ▸ step) directory
  rw [placed, whole] at split
  exact ⟨placed, (List.append_cancel_right split).symm⟩

theorem queryDir_eq (target : OutputTarget) (api : Api) :
    target.queryDir api = Path.join (Path.parent (target.apiPath api)) "query" := by
  simp only [queryDir, apiPath, paths]

/-- So do models, unless they have a directory of their own. -/
theorem modelDir_beside (beside : target.models.filter (· != "") = none) (api : Api) :
    target.modelDir api = Path.join (Path.parent (target.apiPath api)) "model" := by
  simp only [modelDir, apiPath, paths, beside, Option.getD_none]

/-- The file of an operation stands in a directory at or below that of the functions. -/
theorem absolute_apiPath (admits : target.Admits operation)
    (filed : api.filePath = operation.filePath) : ∃ down name,
      Path.absolute directory (Path.parent (target.apiPath api)) =
        Path.absolute directory target.functionDir ++ down ∧
      Path.absolute directory (target.apiPath api) =
        Path.absolute directory target.functionDir ++ down ++ [name] := by
  by_cases source : Path.endsWith ".ts" target.functions = true
  · have named : target.apiPath api = target.functions := by
      simp only [apiPath, paths, if_pos source]
    have around : target.functionDir = Path.parent target.functions := if_pos source
    have placed := Path.absolute_parent (Path.isStep_name_of_source source) directory
    rw [named, around]
    exact ⟨[], _, (List.append_nil _).symm, by rw [List.append_nil, placed]⟩
  · have around : target.functionDir = target.functions := if_neg source
    obtain ⟨down, ended⟩ := (Path.staysInside_iff _).mp (admits.resolve_left source)
      (Path.absolute directory target.functions)
    obtain ⟨placed, above⟩ := absolute_apiPath_beside directory (by simpa using source) filed
    rw [Operation.placeFrom, ← ended] at placed above
    rw [around]
    exact ⟨down, _, above, placed⟩

theorem holds_below {dir name : String} {down : Place}
    (below : Path.absolute directory dir = Path.absolute directory target.functionDir ++ down)
    (step : Path.IsStep name) :
    target.Holds directory (Path.absolute directory (Path.join dir name)) := by
  rw [Path.absolute_join step, below, List.append_assoc]
  exact .inl ⟨down ++ [name], by simp, rfl⟩

/-- What an operation brings to the disk stands below the directories of the target, if its names
hold no slash. -/
theorem holds_of_admits {schemas : Schemas} (admits : target.Admits operation)
    (filed : api.filePath = operation.filePath)
    (query : ∀ model ∈ api.queryModel, Solid model.fileName)
    (found : ∀ models, api.found schemas = .ok models → ∀ model ∈ models, Solid model.fileName) :
    ∀ path ∈ target.apiPath api :: api.interfacePaths schemas target,
      target.Holds directory (Path.absolute directory path) := by
  obtain ⟨down, name, around, own⟩ := absolute_apiPath directory admits filed
  have source {stem : String} (solid : Solid stem) : Path.IsStep (stem ++ ".ts") :=
    Path.isStep_source fun member => solid '/' member rfl
  have inside (part : String) (step : Path.IsStep part) :
      Path.absolute directory (Path.join (Path.parent (target.apiPath api)) part) =
        Path.absolute directory target.functionDir ++ (down ++ [part]) := by
    rw [Path.absolute_join step, around, List.append_assoc]
  -- models stand in the directory for them, or else beside the functions
  have modelled {name : String} (step : Path.IsStep name) : target.Holds directory
      (Path.absolute directory (Path.join (target.modelDir api) name)) := by
    cases given : target.models.filter (· != "") with
    | some models =>
        have chosen : target.modelDir api = models := by
          simp only [modelDir, paths, given, Option.getD_some]
        obtain ⟨listed, solid⟩ := Option.filter_eq_some_iff.mp given
        rw [chosen, Path.absolute_join step]
        exact .inr ⟨models, listed, by simpa using solid, [name], by simp, rfl⟩
    | none =>
        rw [modelDir_beside given]
        exact holds_below directory (inside "model" (Path.isStep_of_check (by decide))) step
  intro path member
  simp only [Api.interfacePaths, List.mem_cons, List.mem_append, List.mem_map,
    Option.mem_toList, List.not_mem_nil, or_false] at member
  rcases member with rfl | (⟨model, asked, rfl⟩ | ⟨model, listed, rfl⟩) | rfl
  · rw [own, List.append_assoc]
    exact .inl ⟨down ++ [name], by simp, rfl⟩
  · rw [queryPath, queryDir_eq]
    exact holds_below directory (inside "query" (Path.isStep_of_check (by decide)))
      (source (query model asked))
  · cases made : api.found schemas with
    | error failure =>
        rw [made] at listed
        cases listed
    | ok models =>
        rw [made] at listed
        exact modelled (source (found models made model listed))
  · exact modelled isStep_index

end Places

end OutputTarget

section Names

variable {options : GenerateOptions} {operation : Operation} {api : Api}

/-- What the user chooses for names holds no slash. -/
structure GenerateOptions.IsSolid (options : GenerateOptions) : Prop where
  funcName : ∀ name ∈ options.funcName, Solid name
  mapping : ∀ entry ∈ options.mapping, Solid entry.2

theorem GenerateOptions.IsSolid.forSeveral (solid : options.IsSolid) (operations : List Operation) :
    (options.forSeveral operations).IsSolid := by
  unfold GenerateOptions.forSeveral
  split
  · exact solid
  · exact ⟨fun _ absent => absurd absent (by simp), solid.mapping⟩

theorem funcName_cases (operation : Operation) (given : Option String) :
    (∃ name ∈ given, operation.funcName given = name) ∨
      operation.funcName given = operation.nameForm.text := by
  rw [← funcName_eq]
  unfold Operation.funcName resolveFuncName
  cases chosen : given.filter (· != "") with
  | none => exact .inr rfl
  | some name => exact .inl ⟨name, (Option.filter_eq_some_iff.mp chosen).1, rfl⟩

theorem solid_queryName (solid : options.IsSolid) (known : operation.method ∈ httpMethods) :
    Solid (operation.queryName options.funcName) := by
  have file : Solid operation.urlNames.fileName := by
    rintro c held rfl
    exact slash_fileName operation.path held
  refine caseClosed_solid.query file ?_
  rcases funcName_cases operation options.funcName with ⟨name, given, chosen⟩ | formed
  · rw [chosen]
    exact solid.funcName name given
  · rw [formed]
    exact solid_nameForm known

theorem solid_of_modelsFor {directory : String} {refs : List String} {schemas : Schemas}
    {models : List Model} {notices : List Notice} (solid : options.IsSolid)
    (keyed : ∀ entry ∈ schemas, ¬ HasLateSlash entry.1.toList)
    (ran : (modelsFor options directory refs schemas).outcome = (.ok models, notices)) :
    ∀ model ∈ models, Solid model.fileName := by
  rw [Noted.yields_outcome, modelsFor] at ran
  obtain ⟨found, _, walked, ends⟩ := (yields_bind _ _ _ _ _).mp ran
  obtain ⟨rfl, -⟩ := (yields_pure _ _ _ _).mp ends
  intro model member
  obtain ⟨kept, inside, rfl⟩ := List.mem_map.mp member
  obtain ⟨reached, schema, same, listed, coded⟩ := modelCode_of_reachable walked inside
  have file : kept.fileName = reached.code.fileName := congrArg Model.fileName same
  have settled : ¬ HasLateSlash (schemaKey reached.key).toList :=
    fun late => keyed _ listed (late.trans (schemaKey_sublist reached.key))
  dsimp only
  rw [file, fileName_modelCode coded]
  exact solid_parse solid.mapping settled

/-- The interfaces that are generated for an operation have names without a slash. -/
theorem solid_interfaces {schemas : Schemas} {before after : List Notice} (solid : options.IsSolid)
    (known : operation.method ∈ httpMethods)
    (keyed : ∀ entry ∈ schemas, ¬ HasLateSlash entry.1.toList)
    (ran : Yields (generateApi options operation) before api after) :
    (∀ model ∈ api.queryModel, Solid model.fileName) ∧
      ∀ models, api.found schemas = .ok models → ∀ model ∈ models, Solid model.fileName := by
  obtain ⟨shown, source, found, -, rfl⟩ := (yields_generateApi _ _ _ _ _).mp ran
  constructor
  · intro model asked
    rw [Operation.api_queryModel] at asked
    rw [(query_of_ofOperation found asked).1]
    exact solid_queryName solid known
  · intro models led
    rw [Api.found, Operation.api_models] at led
    exact solid_of_modelsFor solid keyed (Prod.ext led rfl)

theorem filePath_of_generated {before after : List Notice}
    (ran : Yields (generateApi options operation) before api after) :
    api.filePath = operation.filePath := by
  obtain ⟨shown, source, -, -, rfl⟩ := (yields_generateApi _ _ _ _ _).mp ran
  exact operation.api_filePath _ shown source

end Names

/-- A run of generated operations keeps to the directories of the functions and of the models, where
no path leads above the functions and no key of a schema has a slash behind a line feed. It does so
also when it fails on the way. -/
theorem writes_stay_inside {options : GenerateOptions} {document : Entries}
    {keyword : Option String} {all operations : List Operation} {apis : List Api}
    {notices : List Notice} {schemas : Schemas} {target : OutputTarget}
    (searched : searchOperations document keyword = .ok all) (chosen : operations ⊆ all)
    (made : (generateApis options operations).outcome = (.ok apis, notices))
    (solid : options.IsSolid) (admitted : ∀ operation ∈ operations, target.Admits operation)
    (keyed : ∀ entry ∈ schemas, ¬ HasLateSlash entry.1.toList) (writing : WriteOptions)
    (before : Workspace) :
    before.KeepsTo (target.Holds before.directory)
      (Work.left (writeAll apis schemas target writing) before) := by
  have solid' := solid.forSeveral operations
  refine keepsTo_writeAll (fun api member => ?_) before rfl
  obtain ⟨operation, listed, _, _, ran⟩ := partner_of_mem (made_of_generateApis made) member
  have inside := List.mem_of_mem_filter listed
  have known := method_of_searchOperations searched operation (chosen inside)
  obtain ⟨query, models⟩ := solid_interfaces solid' known keyed ran
  exact OutputTarget.holds_of_admits before.directory (admitted operation inside)
    (filePath_of_generated ran) query models

/-- A path that goes up, but never above the directory of the functions. -/
theorem writes_stay_inside_upward : ∃ apis,
    (generateApis {} [bareOperation "/api/../users/info" "get",
      bareOperation "/api/../users/info" "post"]).outcome = (.ok apis, []) ∧ apis ≠ [] ∧
    ∀ place, ¬ Path.Below ["work", "src"] place →
      (Work.left (writeAll apis friends { functions := "src" } {})
        { directory := ["work"] }).disk.file? place = none := by
  obtain ⟨api, other, made, -⟩ := generateApis_bareOperation "/api/../users/info" "get" "post"
  have searched : searchOperations (pathDocument "/api/../users/info" "get" "post") none =
      .ok [bareOperation "/api/../users/info" "get",
        bareOperation "/api/../users/info" "post"] :=
    rfl
  have names : UrlNames.parse "/api/../users/info" = ⟨"info", "users", "api/..", []⟩ := by decide
  have admitted : ∀ operation ∈ [bareOperation "/api/../users/info" "get",
      bareOperation "/api/../users/info" "post"],
      OutputTarget.Admits { functions := "src" } operation := by
    intro operation member
    have path : operation.urlNames = ⟨"info", "users", "api/..", []⟩ := by
      rcases List.mem_pair.mp member with rfl | rfl <;> exact names
    rw [OutputTarget.Admits, path]
    exact .inr (by decide)
  have kept := writes_stay_inside searched (List.Subset.refl _) made
    ⟨by simp, by simp⟩ admitted (by decide : ∀ entry ∈ friends, ¬ HasLateSlash entry.1.toList) {}
    { directory := ["work"] }
  refine ⟨_, made, by simp, fun place outside => ?_⟩
  rw [kept.files place]
  · rfl
  · rintro (below | ⟨models, absent, -⟩)
    · exact outside below
    · cases absent

end TypedClient

import TypedClient.Proofs.Output.ApiFile
import TypedClient.Proofs.Output.Edits

namespace TypedClient

/-- The models of an operation. -/
def Api.found (api : Api) (schemas : Schemas) : Except Error (List Model) :=
  (api.models schemas).outcome.1

namespace OutputTarget

variable (target : OutputTarget)

def apiPath (api : Api) : String := (target.paths api.filePath).apiFile

def modelDir (api : Api) : String := (target.paths api.filePath).modelDir

def queryDir (api : Api) : String := (target.paths api.filePath).queryDir

/-- How the writer of functions is called in a run. -/
def call (options : WriteOptions) (api : Api) : FileCall :=
  { api, modelDir := target.modelDir api, queryDir := target.queryDir api, options }

end OutputTarget

def queryPath (queryDir : String) (model : Model) : String :=
  Path.join queryDir (model.fileName ++ ".ts")

/-- The text of the file of query parameters. -/
def queryText (directory : Place) (model : Model) (queryDir modelDir : String) (asGlobal : Bool) :
    Except Error String :=
  if model.typeNames.isEmpty || modelDir == "" || asGlobal then .ok model.sourceCode
  else do
    let path ← Path.importSpecifier directory queryDir modelDir
    return (typeImport path model.typeNames).text ++ "\n\n" ++ model.sourceCode

section Plan

variable (directory : Place) (schemas : Schemas) (target : OutputTarget) (options : WriteOptions)

def queryEdits (api : Api) : Except Error (List Edit) :=
  match api.queryModel with
  | none => .ok []
  | some model => do
    let text ← queryText directory model (target.queryDir api) (target.modelDir api)
      options.asGlobal
    return [.put (queryPath (target.queryDir api) model) text]

def foundEdits (api : Api) (models : List Model) : Except Error (List Edit) :=
  if models.isEmpty then .ok []
  else do
    let added ← modelListings directory models (target.modelDir api)
    return modelEdits models (target.modelDir api) options.asGlobal added

def interfaceEdits (api : Api) : Except Error (List Edit) := do
  let query ← queryEdits directory target options api
  let models ← api.found schemas
  return query ++ (← foundEdits directory target options api models)

def collectFiles (files : List String) (api : Api) : List String :=
  match api.found schemas with
  | .error _ => files
  | .ok models =>
    if models.isEmpty then files
    else (files ++ models.map (modelPath (target.modelDir api))).eraseDups

end Plan

/-- Where the interfaces of an operation go: its query parameters, its models and their index. -/
def Api.interfacePaths (schemas : Schemas) (target : OutputTarget) (api : Api) : List String :=
  let models := (api.found schemas).toOption.getD []
  api.queryModel.toList.map (queryPath (target.queryDir api)) ++
    models.map (modelPath (target.modelDir api)) ++ [indexPath (target.modelDir api)]

/-- The files that an operation's interfaces are written to: an index only if there are models. -/
def Api.writtenPaths (schemas : Schemas) (target : OutputTarget) (api : Api) : List String :=
  let models := (api.found schemas).toOption.getD []
  api.queryModel.toList.map (queryPath (target.queryDir api)) ++
    models.map (modelPath (target.modelDir api)) ++
    if models.isEmpty then [] else [indexPath (target.modelDir api)]

section Stages

variable (schemas : Schemas) (target : OutputTarget) (options : WriteOptions)

def reportWritten (api : Api) (written : Bool) : Work Unit :=
  if written then Work.report (target.apiPath api) else pure ()

def writeQuery (api : Api) : Work Unit :=
  match api.queryModel with
  | none => pure ()
  | some model => do
    Work.report (← writeQueryFile model (target.queryDir api) (target.modelDir api)
      options.asGlobal)

def writeFound (api : Api) (models : List Model) (functions : Nat) (files : List String) :
    Work WriteResult :=
  if models.isEmpty then return { functions, modelFiles := files }
  else do
    let written ← writeModelFiles models (target.modelDir api) options.asGlobal
    written.forM Work.report
    return { functions, modelFiles := (files ++ written).eraseDups }

def writeStages (result : WriteResult) (api : Api) : Work WriteResult := do
  let written ← (target.call options api).write (target.apiPath api)
  reportWritten target api written
  writeQuery target options api
  let models ← Work.ofNoted (api.models schemas)
  writeFound target options api models
    (if written then result.functions + 1 else result.functions) result.modelFiles

theorem writeApi_eq (result : WriteResult) (api : Api) :
    writeApi schemas target options result api = writeStages schemas target options result api := by
  have own : (target.call options api).write (target.apiPath api) =
      writeApiFile api (target.paths api.filePath).apiFile (target.paths api.filePath).modelDir
        (target.paths api.filePath).queryDir options := by
    simp only [FileCall.write, OutputTarget.call, OutputTarget.apiPath, OutputTarget.modelDir,
      OutputTarget.queryDir]
  unfold writeApi writeStages
  rw [own]
  dsimp only
  refine bind_congr fun written => ?_
  unfold reportWritten writeQuery writeFound OutputTarget.apiPath OutputTarget.modelDir
    OutputTarget.queryDir
  cases written with
  | false =>
      simp only [Bool.false_eq_true, if_false, pure_bind]
      cases api.queryModel with
      | none => simp only [pure_bind]
      | some model => simp only [bind_assoc]
  | true =>
      simp only [if_true]
      refine bind_congr fun _ => ?_
      cases api.queryModel with
      | none => simp only [pure_bind]
      | some model => simp only [bind_assoc]

end Stages

section Performed

variable {schemas : Schemas} {target : OutputTarget} {options : WriteOptions} {api : Api}
  {models : List Model} {before after : Workspace}

theorem performed_of_report {path : String} (ran : Yields (Work.report path) before () after) :
    Performed [] before after := by
  rw [Work.yields_report.mp ran]
  exact .nothing rfl rfl

theorem performed_of_reports {paths : List String}
    (ran : Yields (paths.forM Work.report) before () after) : Performed [] before after := by
  induction paths generalizing before with
  | nil =>
      rw [(yields_forM_nil _ _ _ _).mp ran]
      exact .nothing rfl rfl
  | cons path rest ih =>
      rcases (yields_forM_cons _ _ _ _ _ _).mp ran with ⟨between, reports, later⟩
      exact (performed_of_report reports).append (ih later)

theorem exists_reports (paths : List String) (before : Workspace) :
    ∃ after, Yields (paths.forM Work.report) before () after := by
  induction paths generalizing before with
  | nil => exact ⟨before, (yields_forM_nil _ _ _ _).mpr rfl⟩
  | cons path rest ih =>
      rcases ih { before with reported := before.reported ++ [path] } with ⟨after, later⟩
      exact ⟨after, (yields_forM_cons _ _ _ _ _ _).mpr ⟨_, Work.yields_report.mpr rfl, later⟩⟩

theorem performed_of_reportWritten {written : Bool}
    (ran : Yields (reportWritten target api written) before () after) :
    Performed [] before after := by
  unfold reportWritten at ran
  cases written with
  | false =>
      rw [((yields_pure _ _ _ _).mp ran).2]
      exact .nothing rfl rfl
  | true => exact performed_of_report ran

theorem yields_writeQueryFile_iff {model : Model} {queryDir modelDir path : String}
    {asGlobal : Bool} :
    Yields (writeQueryFile model queryDir modelDir asGlobal) before path after ↔
      ∃ text, queryText before.directory model queryDir modelDir asGlobal = .ok text ∧
        path = queryPath queryDir model ∧
        Yields (Work.saveFile (queryPath queryDir model) text) before () after := by
  unfold writeQueryFile queryText
  rw [yields_bind]
  constructor
  · rintro ⟨_, _, got, writes⟩
    rcases (yields_get _ _ _).mp got with ⟨rfl, rfl⟩
    dsimp only at writes
    split at writes
    · rename_i alone
      rw [pure_bind] at writes
      rcases (yields_bind _ _ _ _ _).mp writes with ⟨⟨⟩, _, saved, ends⟩
      rcases (yields_pure _ _ _ _).mp ends with ⟨rfl, rfl⟩
      rw [String.empty_append] at saved
      exact ⟨model.sourceCode, if_pos alone, rfl, saved⟩
    · rename_i importing
      rcases (yields_bind _ _ _ _ _).mp writes with ⟨source, _, lifted, imports⟩
      rcases (yields_liftExcept _ _ _ _).mp lifted with ⟨specified, rfl⟩
      rw [pure_bind] at imports
      rcases (yields_bind _ _ _ _ _).mp imports with ⟨⟨⟩, _, saved, ends⟩
      rcases (yields_pure _ _ _ _).mp ends with ⟨rfl, rfl⟩
      refine ⟨_, ?_, rfl, saved⟩
      rw [if_neg importing, specified]
      rfl
  · rintro ⟨text, spelled, rfl, saved⟩
    refine ⟨_, _, (yields_get _ _ _).mpr ⟨rfl, rfl⟩, ?_⟩
    dsimp only
    split at spelled
    · rename_i alone
      cases spelled
      rw [if_pos alone, pure_bind, String.empty_append]
      exact saved.bind ((yields_pure _ _ _ _).mpr ⟨rfl, rfl⟩)
    · rename_i importing
      rcases (bind_eq_ok _ _ _).mp spelled with ⟨source, specified, made⟩
      cases made
      rw [if_neg importing]
      refine Yields.bind ((yields_liftExcept _ _ _ _).mpr ⟨specified, rfl⟩) ?_
      rw [pure_bind]
      exact saved.bind ((yields_pure _ _ _ _).mpr ⟨rfl, rfl⟩)

theorem performed_of_writeQuery (ran : Yields (writeQuery target options api) before () after) :
    ∃ edits, queryEdits before.directory target options api = .ok edits ∧
      Performed edits before after := by
  unfold writeQuery at ran
  unfold queryEdits
  cases shape : api.queryModel with
  | none =>
      rw [shape] at ran
      rw [((yields_pure _ _ _ _).mp ran).2]
      exact ⟨[], rfl, .nothing rfl rfl⟩
  | some model =>
      rw [shape] at ran
      rcases (yields_bind _ _ _ _ _).mp ran with ⟨path, between, wrote, reports⟩
      rcases yields_writeQueryFile_iff.mp wrote with ⟨text, spelled, rfl, saves⟩
      have first : Performed [.put (queryPath (target.queryDir api) model) text] before between :=
        .of_saved (Work.saved_of_yields saves) rfl
      refine ⟨[.put (queryPath (target.queryDir api) model) text], ?_,
        first.append (performed_of_report reports)⟩
      dsimp only
      rw [spelled]
      rfl

theorem exists_writeQuery {edits : List Edit}
    (made : queryEdits before.directory target options api = .ok edits)
    (ready : ∀ edit ∈ edits, before.disk.Ready before.directory edit.path) :
    ∃ after, Yields (writeQuery target options api) before () after := by
  unfold queryEdits at made
  unfold writeQuery
  cases shape : api.queryModel with
  | none => exact ⟨before, (yields_pure _ _ _ _).mpr ⟨rfl, rfl⟩⟩
  | some model =>
      rw [shape] at made
      rcases (bind_eq_ok _ _ _).mp made with ⟨text, spelled, listed⟩
      cases listed
      have saves := Work.yields_saveFile_of_ready (ready _ (List.mem_singleton.mpr rfl)) text
      have wrote := yields_writeQueryFile_iff.mpr ⟨text, spelled, rfl, saves⟩
      exact ⟨_, wrote.bind (Work.yields_report.mpr rfl)⟩

theorem performed_of_writeFound {functions : Nat} {files : List String} {result : WriteResult}
    (ran : Yields (writeFound target options api models functions files) before result after)
    (housed : before.disk.Housed
      (Path.absolute before.directory (indexPath (target.modelDir api)))) :
    (∃ edits, foundEdits before.directory target options api models = .ok edits ∧
      Performed edits before after) ∧
    result = { functions, modelFiles := if models.isEmpty then files
      else (files ++ models.map (modelPath (target.modelDir api))).eraseDups } := by
  unfold writeFound at ran
  unfold foundEdits
  split at ran
  · rename_i nothing
    rcases (yields_pure _ _ _ _).mp ran with ⟨rfl, rfl⟩
    rw [if_pos nothing, if_pos nothing]
    exact ⟨⟨[], rfl, .nothing rfl rfl⟩, rfl⟩
  · rename_i some_found
    rcases (yields_bind _ _ _ _ _).mp ran with ⟨written, between, wrote, reports⟩
    rcases performed_of_writeModelFiles wrote housed with ⟨rfl, added, listed, first⟩
    rcases (yields_bind _ _ _ _ _).mp reports with ⟨⟨⟩, _, reported, ends⟩
    rcases (yields_pure _ _ _ _).mp ends with ⟨rfl, rfl⟩
    rw [if_neg some_found, if_neg some_found]
    have both := first.append (performed_of_reports reported)
    rw [List.append_nil] at both
    refine ⟨⟨_, ?_, both⟩, rfl⟩
    rw [listed]
    rfl

theorem exists_writeFound {edits : List Edit} (functions : Nat) (files : List String)
    (made : foundEdits before.directory target options api models = .ok edits)
    (ready : ∀ edit ∈ edits, before.disk.Ready before.directory edit.path)
    (readable : ∀ bytes, before.disk.file?
      (Path.absolute before.directory (indexPath (target.modelDir api))) ≠ some (.binary bytes)) :
    ∃ result after, Yields (writeFound target options api models functions files) before result
      after := by
  unfold foundEdits at made
  unfold writeFound
  split
  · exact ⟨_, before, (yields_pure _ _ _ _).mpr ⟨rfl, rfl⟩⟩
  · rename_i some_found
    rw [if_neg some_found] at made
    rcases (bind_eq_ok _ _ _).mp made with ⟨added, listed, shape⟩
    cases shape
    rcases exists_writeModelFiles listed ready readable with ⟨between, wrote⟩
    rcases exists_reports (models.map (modelPath (target.modelDir api))) between with
      ⟨after, reported⟩
    exact ⟨_, after, wrote.bind (reported.bind ((yields_pure _ _ _ _).mpr ⟨rfl, rfl⟩))⟩

/-- The writer of functions saves its file or does nothing. -/
theorem performed_of_write {path : String} {call : FileCall} {written : Bool}
    (ran : Yields (call.write path) before written after) :
    ∃ own, (own = [] ∨ call.api.sourceCode ≠ "" ∧ ∃ text, own = [.put path text]) ∧
      Performed own before after := by
  rcases yields_write ran with ⟨-, rfl, -⟩ | ⟨-, given, content, imports, -, -, -, saves⟩
  · exact ⟨[], .inl rfl, .nothing rfl rfl⟩
  · exact ⟨[.put path _], .inr ⟨given, _, rfl⟩, .of_saved (Work.saved_of_yields saves) rfl⟩

theorem performed_of_writeApi {result result' : WriteResult}
    (ran : Yields (writeApi schemas target options result api) before result' after)
    (housed : before.disk.Housed
      (Path.absolute before.directory (indexPath (target.modelDir api)))) :
    ∃ written between edits,
      Yields ((target.call options api).write (target.apiPath api)) before written between ∧
      interfaceEdits before.directory schemas target options api = .ok edits ∧
      Performed edits between after ∧
      result' =
        { functions := if written then result.functions + 1 else result.functions
          modelFiles := collectFiles schemas target result.modelFiles api } := by
  rw [writeApi_eq, writeStages] at ran
  rcases (yields_bind _ _ _ _ _).mp ran with ⟨written, between, wrote, reports⟩
  rcases performed_of_write wrote with ⟨own, -, function⟩
  rcases (yields_bind _ _ _ _ _).mp reports with ⟨⟨⟩, noted, reported, queries⟩
  have note := performed_of_reportWritten reported
  rcases (yields_bind _ _ _ _ _).mp queries with ⟨⟨⟩, queried, query, finds⟩
  rcases performed_of_writeQuery query with ⟨first, made, asked⟩
  rcases (yields_bind _ _ _ _ _).mp finds with ⟨models, _, found, writes⟩
  rcases Work.yields_ofNoted.mp found with ⟨models_found, rfl⟩
  have noticed : Performed [] queried
      { queried with notices := queried.notices ++ (api.models schemas).outcome.2 } :=
    .nothing rfl rfl
  have start := (note.append asked).append noticed
  rw [List.nil_append, List.append_nil] at start
  have housed' := start.housed _ (function.housed _ housed)
  have directory : queried.directory = before.directory :=
    asked.directory.trans (note.directory.trans function.directory)
  rcases performed_of_writeFound writes (directory.symm ▸ housed') with
    ⟨⟨second, made', listed⟩, shape⟩
  refine ⟨written, between, first ++ second, wrote, ?_, start.append listed, ?_⟩
  · rw [note.directory, function.directory] at made
    rw [directory] at made'
    unfold interfaceEdits Api.found
    rw [made, models_found]
    dsimp only [Except.bind, bind]
    rw [made']
    rfl
  · rw [shape, collectFiles, Api.found, models_found]

/-- An operation whose function is there already is written again like the first time. -/
theorem exists_writeApi {edits : List Edit} (result : WriteResult)
    (skips : Yields ((target.call options api).write (target.apiPath api)) before false before)
    (made : interfaceEdits before.directory schemas target options api = .ok edits)
    (ready : ∀ edit ∈ edits, before.disk.Ready before.directory edit.path)
    (readable : ∀ bytes, before.disk.file?
      (Path.absolute before.directory (indexPath (target.modelDir api))) ≠ some (.binary bytes)) :
    ∃ result' after, Yields (writeApi schemas target options result api) before result' after := by
  rcases (bind_eq_ok _ _ _).mp made with ⟨first, asked, made'⟩
  rcases (bind_eq_ok _ _ _).mp made' with ⟨models, found, made''⟩
  rcases (bind_eq_ok _ _ _).mp made'' with ⟨second, listed, shape⟩
  cases shape
  have ready_query := fun edit member => ready edit (List.mem_append_left second member)
  have ready_found := fun edit member => ready edit (List.mem_append_right first member)
  rcases exists_writeQuery asked ready_query with ⟨queried, query⟩
  rcases performed_of_writeQuery query with ⟨first', asked', performed⟩
  rw [asked] at asked'
  cases asked'
  obtain ⟨noted, notes, noticed⟩ : ∃ noted,
      Yields (Work.ofNoted (api.models schemas)) queried models noted ∧
        Performed [] queried noted :=
    ⟨_, Work.yields_ofNoted.mpr ⟨found, rfl⟩, .nothing rfl rfl⟩
  have start := performed.append noticed
  rw [List.append_nil] at start
  have texts : ∀ bytes, noted.disk.file?
      (Path.absolute noted.directory (indexPath (target.modelDir api))) ≠ some (.binary bytes) := by
    rw [start.directory, start.files, Edit.replay_at]
    exact Edit.foldl_fill_text readable _
  have ready' := fun edit member => (ready_found edit member).grows start.grows
  rw [← start.directory] at listed ready'
  rcases exists_writeFound result.functions result.modelFiles listed ready' texts with
    ⟨result', after, writes⟩
  rw [writeApi_eq, writeStages]
  have silent : Yields (reportWritten target api false) before () before :=
    (yields_pure _ _ _ _).mpr ⟨rfl, rfl⟩
  exact ⟨result', after, skips.bind (silent.bind (query.bind (notes.bind writes)))⟩

end Performed

section Edits

variable {directory : Place} {schemas : Schemas} {target : OutputTarget} {options : WriteOptions}
  {api : Api} {edits : List Edit}

/-- The edits of an operation are one for its query parameters, one for each model, and one for the
index. -/
theorem mem_interfaceEdits (made : interfaceEdits directory schemas target options api = .ok edits)
    {edit : Edit} (member : edit ∈ edits) :
    (∃ model ∈ api.queryModel, edit.path = queryPath (target.queryDir api) model ∧
      ∃ text, edit = .put edit.path text) ∨
    ∃ models, api.found schemas = .ok models ∧
      ((∃ model ∈ models, edit = .put (modelPath (target.modelDir api) model) model.sourceCode) ∨
        ∃ added, modelListings directory models (target.modelDir api) = .ok added ∧
          edit = .list (indexPath (target.modelDir api)) options.asGlobal added) := by
  rcases (bind_eq_ok _ _ _).mp made with ⟨first, asked, made'⟩
  rcases (bind_eq_ok _ _ _).mp made' with ⟨models, found, made''⟩
  rcases (bind_eq_ok _ _ _).mp made'' with ⟨second, listed, shape⟩
  cases shape
  rcases List.mem_append.mp member with query | written
  · left
    unfold queryEdits at asked
    split at asked
    · cases asked
      cases query
    · rename_i model given
      rcases (bind_eq_ok _ _ _).mp asked with ⟨text, spelled, made⟩
      cases made
      rw [List.mem_singleton.mp query]
      exact ⟨model, given, rfl, text, rfl⟩
  · right
    refine ⟨models, found, ?_⟩
    unfold foundEdits at listed
    split at listed
    · cases listed
      cases written
    · rcases (bind_eq_ok _ _ _).mp listed with ⟨added, entries, made⟩
      cases made
      rcases List.mem_append.mp written with own | index
      · rcases List.mem_map.mp own with ⟨model, held, rfl⟩
        exact .inl ⟨model, held, rfl⟩
      · exact .inr ⟨added, entries, List.mem_singleton.mp index⟩

/-- The interfaces of an operation are written to their files, and to no others. -/
theorem paths_of_interfaceEdits
    (made : interfaceEdits directory schemas target options api = .ok edits) :
    edits.map Edit.path = api.writtenPaths schemas target := by
  rcases (bind_eq_ok _ _ _).mp made with ⟨first, asked, made'⟩
  rcases (bind_eq_ok _ _ _).mp made' with ⟨models, found, made''⟩
  rcases (bind_eq_ok _ _ _).mp made'' with ⟨second, listed, shape⟩
  cases shape
  have query : first.map Edit.path =
      api.queryModel.toList.map (queryPath (target.queryDir api)) := by
    unfold queryEdits at asked
    split at asked
    · rename_i none_asked
      cases asked
      rw [none_asked]
      rfl
    · rename_i model given
      rcases (bind_eq_ok _ _ _).mp asked with ⟨text, -, made⟩
      cases made
      rw [given]
      rfl
  have written : second.map Edit.path = models.map (modelPath (target.modelDir api)) ++
      if models.isEmpty then [] else [indexPath (target.modelDir api)] := by
    unfold foundEdits at listed
    split at listed
    · rename_i empty
      cases listed
      rw [List.isEmpty_iff.mp empty]
      rfl
    · rename_i given
      rcases (bind_eq_ok _ _ _).mp listed with ⟨added, -, made⟩
      cases made
      rw [if_neg given, modelEdits, List.map_append, List.map_map]
      rfl
  rw [List.map_append, query, written, Api.writtenPaths, found, List.append_assoc]
  rfl

theorem writtenPaths_subset (api : Api) :
    api.writtenPaths schemas target ⊆ api.interfacePaths schemas target := by
  unfold Api.writtenPaths Api.interfacePaths
  dsimp only
  split
  · rw [List.append_nil]
    exact List.subset_append_left _ _
  · exact List.Subset.refl _

theorem path_mem_interfacePaths
    (made : interfaceEdits directory schemas target options api = .ok edits)
    {edit : Edit} (member : edit ∈ edits) : edit.path ∈ api.interfacePaths schemas target := by
  have held := List.mem_map_of_mem (f := Edit.path) member
  rw [paths_of_interfaceEdits made] at held
  exact writtenPaths_subset api held

theorem put_mem_interfaceEdits {models : List Model} {model : Model}
    (made : interfaceEdits directory schemas target options api = .ok edits)
    (found : api.found schemas = .ok models) (member : model ∈ models) :
    Edit.put (modelPath (target.modelDir api) model) model.sourceCode ∈ edits := by
  rcases (bind_eq_ok _ _ _).mp made with ⟨first, asked, made'⟩
  rcases (bind_eq_ok _ _ _).mp made' with ⟨models', found', made''⟩
  rcases (bind_eq_ok _ _ _).mp made'' with ⟨second, listed, shape⟩
  cases shape
  rw [found] at found'
  cases found'
  unfold foundEdits at listed
  rw [if_neg (by simpa using List.ne_nil_of_mem member)] at listed
  rcases (bind_eq_ok _ _ _).mp listed with ⟨added, entries, shape⟩
  cases shape
  exact List.mem_append_right _ (List.mem_append_left _ (List.mem_map.mpr ⟨model, member, rfl⟩))

end Edits

def Api.WritesBy (directory : Place) (schemas : Schemas) (target : OutputTarget)
    (options : WriteOptions) (api : Api) (step : List Edit) : Prop :=
  ∃ own edits, step = own ++ edits ∧
    (own = [] ∨ api.sourceCode ≠ "" ∧ ∃ text, own = [.put (target.apiPath api) text]) ∧
    interfaceEdits directory schemas target options api = .ok edits

theorem exists_step {schemas : Schemas} {target : OutputTarget} {options : WriteOptions} {api : Api}
    {before after : Workspace} {result result' : WriteResult}
    (ran : Yields (writeApi schemas target options result api) before result' after)
    (housed : before.disk.Housed
      (Path.absolute before.directory (indexPath (target.modelDir api)))) :
    ∃ step, api.WritesBy before.directory schemas target options step ∧
      Performed step before after ∧
      result'.modelFiles = collectFiles schemas target result.modelFiles api := by
  rcases performed_of_writeApi ran housed with
    ⟨written, between, edits, wrote, made, interfaces, rfl⟩
  rcases performed_of_write wrote with ⟨own, kind, function⟩
  exact ⟨own ++ edits, ⟨own, edits, rfl, kind, made⟩, function.append interfaces, rfl⟩

/-- A run carries out the edits of its operations, one operation after the other. -/
theorem performed_of_run {schemas : Schemas} {target : OutputTarget} {options : WriteOptions}
    {apis : List Api} {before after : Workspace} {result result' : WriteResult}
    (ran : Yields (apis.foldlM (writeApi schemas target options) result) before result' after)
    (housed : ∀ api ∈ apis, before.disk.Housed
      (Path.absolute before.directory (indexPath (target.modelDir api)))) :
    (∃ steps, List.Forall₂ (Api.WritesBy before.directory schemas target options) apis steps ∧
      Performed steps.flatten before after) ∧
    result'.modelFiles = apis.foldl (collectFiles schemas target) result.modelFiles := by
  induction apis generalizing before result with
  | nil =>
      rcases (yields_foldlM_nil _ _ _ _ _).mp ran with ⟨rfl, rfl⟩
      exact ⟨⟨[], .nil, .nothing rfl rfl⟩, rfl⟩
  | cons api rest ih =>
      rcases (yields_foldlM_cons _ _ _ _ _ _ _).mp ran with ⟨next, between, first, later⟩
      rcases exists_step first (housed api (by simp)) with ⟨step, writes, performed, collected⟩
      have housed' : ∀ other ∈ rest, between.disk.Housed
          (Path.absolute between.directory (indexPath (target.modelDir other))) := by
        intro other member
        rw [performed.directory]
        exact performed.housed _ (housed other (by simp [member]))
      rcases ih later housed' with ⟨⟨steps, writes', performed'⟩, collected'⟩
      rw [performed.directory] at writes'
      rw [collected] at collected'
      exact ⟨⟨step :: steps, .cons writes writes', performed.append performed'⟩, collected'⟩

end TypedClient

import TypedClient.Api.Generate
import TypedClient.Proofs.Stateful

namespace TypedClient

namespace Operation

/-- The names that the path of an operation gives. -/
def urlNames (operation : Operation) : UrlNames := .parse operation.path

/-- The name of the function of an operation. -/
def funcName (operation : Operation) (given : Option String) : String :=
  resolveFuncName operation operation.urlNames given

/-- The name of the query interface of an operation. -/
def queryName (operation : Operation) (given : Option String) : String :=
  upperFirst operation.urlNames.fileName ++ upperFirst (operation.funcName given) ++ "Query"

/-- The file of the function of an operation. -/
def filePath (operation : Operation) : String :=
  Path.join operation.urlNames.dirName (operation.urlNames.fileName ++ ".ts")

/-- What the function of an operation is made from. -/
def context (operation : Operation) (options : GenerateOptions) (shown : ShownSchemas) :
    FunctionContext where
  operation := some operation
  name := operation.funcName options.funcName
  url := operation.path
  method := operation.method
  comment := (given operation.summary).or operation.description
  pathParams := pathParamsOf operation.urlNames operation.parameters
  queryType := shown.query.map fun _ => operation.queryName options.funcName
  bodyType := shown.bodyType
  responseType := shown.responseType

/-- The api of an operation with the given schemas and text. -/
def api (operation : Operation) (options : GenerateOptions) (shown : ShownSchemas)
    (sourceCode : String) : Api where
  sourceCode
  funcName := operation.funcName options.funcName
  fileName := operation.urlNames.fileName
  fileDir := operation.urlNames.dirName
  filePath := operation.filePath
  method := operation.method
  url := operation.path
  typeNames := shown.typeNames
  queryModel := shown.query.map (·.1)
  refs := shown.refs
  models := modelsFor options operation.urlNames.dirName shown.refs

variable (operation : Operation) (options : GenerateOptions) (shown : ShownSchemas)
  (sourceCode : String)

-- stated one by one, as comparing whole apis unfolds how their names are found
@[simp] theorem context_pathParams : (operation.context options shown).pathParams =
    pathParamsOf operation.urlNames operation.parameters := by
  rw [context]

@[simp] theorem context_method : (operation.context options shown).method = operation.method := by
  rw [context]

@[simp] theorem context_url : (operation.context options shown).url = operation.path := by
  rw [context]

@[simp] theorem api_sourceCode :
    (operation.api options shown sourceCode).sourceCode = sourceCode := by
  rw [api]

@[simp] theorem api_mark : (operation.api options shown sourceCode).mark =
    operationMark operation.method operation.path := by
  rw [api, Api.mark]

@[simp] theorem api_funcName : (operation.api options shown sourceCode).funcName =
    operation.funcName options.funcName := by
  rw [api]

@[simp] theorem api_filePath :
    (operation.api options shown sourceCode).filePath = operation.filePath := by
  rw [api]

@[simp] theorem api_queryModel :
    (operation.api options shown sourceCode).queryModel = shown.query.map (·.1) := by
  rw [api]

@[simp] theorem api_models : (operation.api options shown sourceCode).models =
    modelsFor options operation.urlNames.dirName shown.refs := by
  rw [api]

end Operation

theorem generateApi_eq (options : GenerateOptions) (operation : Operation) :
    generateApi options operation = (do
      let shown ← liftExcept (ShownSchemas.ofOperation options operation.urlNames
        (operation.queryName options.funcName) operation)
      let sourceCode ← sourceOf options (operation.context options shown)
      return operation.api options shown sourceCode) := by
  unfold generateApi Operation.context Operation.api Operation.filePath Operation.queryName
    Operation.funcName Operation.urlNames
  rfl

theorem yields_generateApi (options : GenerateOptions) (operation : Operation) (api : Api)
    (before after : List Notice) :
    Yields (generateApi options operation) before api after ↔
      ∃ shown source, ShownSchemas.ofOperation options operation.urlNames
          (operation.queryName options.funcName) operation = .ok shown ∧
        Yields (sourceOf options (operation.context options shown)) before source after ∧
        api = operation.api options shown source := by
  simp only [generateApi_eq, yields_bind, yields_liftExcept, yields_pure]
  constructor
  · rintro ⟨shown, _, ⟨found, rfl⟩, source, _, made, rfl, rfl⟩
    exact ⟨shown, source, found, made, rfl⟩
  · rintro ⟨shown, source, found, made, rfl⟩
    exact ⟨shown, _, ⟨found, rfl⟩, source, _, made, rfl, rfl⟩

/-- The query interface of an operation has the name that it is asked for, and stands in the
directory for them. -/
theorem query_of_ofOperation {options : GenerateOptions} {url : UrlNames} {name : String}
    {operation : Operation} {shown : ShownSchemas} {model : Model}
    (found : ShownSchemas.ofOperation options url name operation = .ok shown)
    (asked : shown.query.map (·.1) = some model) :
    model.fileName = name ∧ model.typeName = name ∧
      model.fileDir = Path.join url.dirName "query" := by
  obtain ⟨query, queried, found⟩ := (bind_eq_ok _ _ _).mp found
  obtain ⟨body, -, found⟩ := (bind_eq_ok _ _ _).mp found
  obtain ⟨response, -, found⟩ := (bind_eq_ok _ _ _).mp found
  cases found
  obtain ⟨⟨_, refs⟩, rfl, rfl⟩ := Option.map_eq_some_iff.mp asked
  obtain ⟨fields, -, queried⟩ := (bind_eq_ok _ _ _).mp queried
  cases fields with
  | nil => cases queried
  | cons field rest =>
      obtain ⟨made, built, same⟩ := (map_eq_ok _ _ _).mp queried
      cases same
      obtain ⟨code, -, same⟩ := (bind_eq_ok _ _ _).mp built
      cases same
      exact ⟨rfl, rfl, rfl⟩

/-- The options for operations that are generated together: a function name counts for one alone. -/
def GenerateOptions.forSeveral (options : GenerateOptions) (operations : List Operation) :
    GenerateOptions :=
  if operations.length ≤ 1 then options else { options with funcName := none }

/-- The operations that are not to be left out. -/
def GenerateOptions.chosen (options : GenerateOptions) (operations : List Operation) :
    List Operation :=
  operations.filter fun operation => isAllowed options.ignores operation.path

theorem GenerateOptions.funcName_forSeveral {options : GenerateOptions}
    (own : options.funcName = none)
    (operations : List Operation) : (options.forSeveral operations).funcName = none := by
  unfold GenerateOptions.forSeveral
  split
  · exact own
  · rfl

theorem GenerateOptions.ignores_forSeveral (options : GenerateOptions)
    (operations : List Operation) :
    (options.forSeveral operations).ignores = options.ignores := by
  unfold GenerateOptions.forSeveral
  split <;> rfl

theorem forall₂_of_yields_mapM {σ α β : Type} {f : α → ExceptT Error (StateM σ) β}
    {items : List α} {results : List β} {before after : σ}
    (ran : Yields (items.mapM f) before results after) :
    List.Forall₂ (fun item result => ∃ before after, Yields (f item) before result after)
      items results := by
  induction items generalizing before results with
  | nil =>
      obtain ⟨rfl, -⟩ := (yields_mapM_nil _ _ _ _).mp ran
      exact .nil
  | cons item rest ih =>
      obtain ⟨first, between, others, own, later, rfl⟩ := (yields_mapM_cons _ _ _ _ _ _).mp ran
      exact .cons ⟨_, _, own⟩ (ih later)

theorem made_of_generateApis {options : GenerateOptions} {operations : List Operation}
    {apis : List Api} {notices : List Notice}
    (ran : (generateApis options operations).outcome = (.ok apis, notices)) :
    List.Forall₂ (fun operation api => ∃ before after, Yields
        (generateApi (options.forSeveral operations) operation) before api after)
      (options.chosen operations) apis := by
  rw [GenerateOptions.chosen, ← options.ignores_forSeveral operations]
  exact forall₂_of_yields_mapM ran

theorem generateApis_of_forall₂ {options : GenerateOptions} {operations : List Operation}
    {apis : List Api} (each : List.Forall₂ (fun operation api =>
      Yields (generateApi (options.forSeveral operations) operation) [] api [])
        (options.chosen operations) apis) :
    (generateApis options operations).outcome = (.ok apis, []) := by
  rw [GenerateOptions.chosen, ← options.ignores_forSeveral operations] at each
  rw [Noted.yields_outcome]
  have ran {f : Operation → Noted Api} {items : List Operation} {apis : List Api}
      (each : List.Forall₂ (fun item api => Yields (f item) [] api []) items apis) :
      Yields (items.mapM f) [] apis [] := by
    induction each with
    | nil => exact (yields_mapM_nil _ _ _ _).mpr ⟨rfl, rfl⟩
    | cons own _ later => exact (yields_mapM_cons _ _ _ _ _ _).mpr ⟨_, _, _, own, later, rfl⟩
  exact ran each

end TypedClient

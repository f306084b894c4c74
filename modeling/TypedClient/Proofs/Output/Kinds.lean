import TypedClient.Proofs.Naming.Declarable
import TypedClient.Proofs.Output.Contained

/-!
Files of different kinds in one directory. The file of a function is that of an interface only where
the path of its operation leads into the directory for the models or the queries of another one.
-/

namespace TypedClient

/-- The file of an operation's function is one that an interface of another operation is written to:
the directory of its path is the one for models or for queries there, and its name is in it. -/
inductive Operation.MeetsIn (root : Place) (schemas : Schemas) (operation partner : Operation)
    (other : Api) : Prop
  | model {models : List Model} {model : Model}
      (place : operation.placeFrom root = partner.placeFrom root ++ ["model"])
      (found : other.found schemas = .ok models) (listed : model ∈ models)
      (named : operation.urlNames.fileName = model.fileName)
  | index {models : List Model}
      (place : operation.placeFrom root = partner.placeFrom root ++ ["model"])
      (found : other.found schemas = .ok models) (given : models ≠ [])
      (named : operation.urlNames.fileName = "index")
  | query {model : Model}
      (place : operation.placeFrom root = partner.placeFrom root ++ ["query"])
      (asked : other.queryModel = some model)
      (named : operation.urlNames.fileName = model.fileName)

/-- No function outside of the directories for models and for queries shares its file. -/
theorem Operation.MeetsIn.last {root : Place} {schemas : Schemas} {operation partner : Operation}
    {other : Api} (meets : operation.MeetsIn root schemas partner other) :
    (operation.placeFrom root).getLast? = some "model" ∨
      (operation.placeFrom root).getLast? = some "query" := by
  cases meets with
  | model place | index place =>
      rw [place]
      exact .inl List.getLast?_concat
  | query place =>
      rw [place]
      exact .inr List.getLast?_concat

section Pair

variable (directory : Place) {schemas : Schemas} {target : OutputTarget}
  {operation partner : Operation} {api other : Api}

theorem mem_writtenPaths {path : String} : path ∈ api.writtenPaths schemas target ↔
    (∃ model, api.queryModel = some model ∧ path = queryPath (target.queryDir api) model) ∨
      ∃ models, api.found schemas = .ok models ∧
        ((∃ model ∈ models, path = modelPath (target.modelDir api) model) ∨
          models ≠ [] ∧ path = indexPath (target.modelDir api)) := by
  unfold Api.writtenPaths
  cases api.found schemas with
  | error failure => simp [Except.toOption, @eq_comm _ path]
  | ok models =>
      have only : ∀ claim : List Model → Prop,
          (∃ found, Except.ok models = (.ok found : Except Error (List Model)) ∧ claim found) ↔
            claim models := by
        intro claim
        constructor
        · rintro ⟨found, ⟨⟩, held⟩
          exact held
        · exact fun held => ⟨models, rfl, held⟩
      rw [only]
      by_cases empty : models = []
      · simp [Except.toOption, empty, @eq_comm _ path]
      · simp [Except.toOption, empty, @eq_comm _ path]

/-- Two source files are the same if they stand in one place under one name. -/
theorem source_inj {place place' : Place} {stem stem' : String} :
    place ++ [stem ++ ".ts"] = place' ++ [stem' ++ ".ts"] ↔ place = place' ∧ stem = stem' := by
  constructor
  · intro same
    obtain ⟨around, last⟩ := List.append_inj' same rfl
    exact ⟨around, (String.append_left_inj _).mp (List.singleton_inj.mp last)⟩
  · rintro ⟨rfl, rfl⟩
    rfl

variable (single : Path.endsWith ".ts" target.functions = false)
  (beside : target.models.filter (· != "") = none) (filed : api.filePath = operation.filePath)
  (filed' : other.filePath = partner.filePath)
  (query : ∀ model ∈ other.queryModel, Solid model.fileName)
  (models : ∀ models, other.found schemas = .ok models → ∀ model ∈ models, Solid model.fileName)

include single filed filed' in
/-- The file of a function is one in a directory beside another function exactly where both have one
place and one name. -/
theorem absolute_beside_iff {part stem : String} (step : Path.IsStep part)
    (whole : '/' ∉ stem.toList) :
    Path.absolute directory (Path.join (Path.join (Path.parent (target.apiPath other)) part)
          (stem ++ ".ts")) =
        Path.absolute directory (target.apiPath api) ↔
      operation.placeFrom (Path.absolute directory target.functions) =
          partner.placeFrom (Path.absolute directory target.functions) ++ [part] ∧
        operation.urlNames.fileName = stem := by
  rw [Path.absolute_join (Path.isStep_source whole), Path.absolute_join step,
    (OutputTarget.absolute_apiPath_beside directory single filed').2,
    (OutputTarget.absolute_apiPath_beside directory single filed).1, source_inj, eq_comm,
    @eq_comm _ stem]

include single beside filed filed' query models in
/-- The file of a function is that of an interface exactly where they have one place and name. -/
theorem meetsIn_iff : (∃ path ∈ other.writtenPaths schemas target,
      Path.absolute directory path = Path.absolute directory (target.apiPath api)) ↔
    operation.MeetsIn (Path.absolute directory target.functions) schemas partner other := by
  have isModel : Path.IsStep "model" := Path.isStep_of_check (by decide)
  have isQuery : Path.IsStep "query" := Path.isStep_of_check (by decide)
  have slashless {stem : String} (solid : Solid stem) : '/' ∉ stem.toList :=
    fun member => solid '/' member rfl
  have aside := OutputTarget.modelDir_beside beside other
  have queried {model : Model} (asked : other.queryModel = some model) :
      Path.absolute directory (queryPath (target.queryDir other) model) =
          Path.absolute directory (target.apiPath api) ↔
        operation.placeFrom (Path.absolute directory target.functions) =
            partner.placeFrom (Path.absolute directory target.functions) ++ ["query"] ∧
          operation.urlNames.fileName = model.fileName := by
    rw [queryPath, OutputTarget.queryDir_eq]
    exact absolute_beside_iff directory single filed filed' isQuery (slashless (query model asked))
  have listed {found : List Model} (led : other.found schemas = .ok found) {model : Model}
      (member : model ∈ found) :
      Path.absolute directory (modelPath (target.modelDir other) model) =
          Path.absolute directory (target.apiPath api) ↔
        operation.placeFrom (Path.absolute directory target.functions) =
            partner.placeFrom (Path.absolute directory target.functions) ++ ["model"] ∧
          operation.urlNames.fileName = model.fileName := by
    rw [modelPath, aside]
    exact absolute_beside_iff directory single filed filed' isModel
      (slashless (models found led model member))
  have indexed : Path.absolute directory (indexPath (target.modelDir other)) =
        Path.absolute directory (target.apiPath api) ↔
      operation.placeFrom (Path.absolute directory target.functions) =
          partner.placeFrom (Path.absolute directory target.functions) ++ ["model"] ∧
        operation.urlNames.fileName = "index" := by
    have spelled : "index.ts" = "index" ++ ".ts" := by decide
    rw [indexPath, aside, spelled]
    exact absolute_beside_iff directory single filed filed' isModel (by decide)
  constructor
  · rintro ⟨path, member, same⟩
    rcases mem_writtenPaths.mp member with
      ⟨model, asked, rfl⟩ | ⟨found, led, ⟨model, inside, rfl⟩ | ⟨given, rfl⟩⟩
    · obtain ⟨place, named⟩ := (queried asked).mp same
      exact .query place asked named
    · obtain ⟨place, named⟩ := (listed led inside).mp same
      exact .model place led inside named
    · obtain ⟨place, named⟩ := indexed.mp same
      exact .index place led given named
  · intro meets
    cases meets with
    | @model found model place led inside named =>
        exact ⟨_, mem_writtenPaths.mpr (.inr ⟨found, led, .inl ⟨model, inside, rfl⟩⟩),
          (listed led inside).mpr ⟨place, named⟩⟩
    | @index found place led given named =>
        exact ⟨_, mem_writtenPaths.mpr (.inr ⟨found, led, .inr ⟨given, rfl⟩⟩),
          indexed.mpr ⟨place, named⟩⟩
    | @query model place asked named =>
        exact ⟨_, mem_writtenPaths.mpr (.inl ⟨model, asked, rfl⟩),
          (queried asked).mpr ⟨place, named⟩⟩

end Pair

theorem exists_mem_zip {α β : Type} {items : List α} {results : List β}
    (same : items.length = results.length) {result : β} (member : result ∈ results) :
    ∃ item, (item, result) ∈ items.zip results := by
  rw [← List.map_snd_zip same.ge, List.mem_map] at member
  obtain ⟨⟨item, own⟩, inside, rfl⟩ := member
  exact ⟨item, inside⟩

/-- In one directory for all files, no function shares its file with an interface exactly if no path
of an operation leads into the directory for the models or the queries of another one, to a name
that is in it. -/
theorem functions_apart_iff {options : GenerateOptions} {document : Entries}
    {keyword : Option String} {all operations : List Operation} {apis : List Api}
    {notices : List Notice} {schemas : Schemas} {target : OutputTarget}
    (searched : searchOperations document keyword = .ok all) (chosen : operations ⊆ all)
    (made : (generateApis options operations).outcome = (.ok apis, notices))
    (solid : options.IsSolid) (keyed : ∀ entry ∈ schemas, ¬ HasLateSlash entry.1.toList)
    (single : Path.endsWith ".ts" target.functions = false)
    (beside : target.models.filter (· != "") = none) (directory : Place) :
    (∀ api ∈ apis, ∀ other ∈ apis, ∀ path ∈ other.writtenPaths schemas target,
      Path.absolute directory path ≠ Path.absolute directory (target.apiPath api)) ↔
    ∀ first ∈ (options.chosen operations).zip apis,
      ∀ second ∈ (options.chosen operations).zip apis,
        ¬ first.1.MeetsIn (Path.absolute directory target.functions) schemas second.1 second.2 := by
  have solid' := solid.forSeveral operations
  obtain ⟨length, ran⟩ := List.forall₂_iff_zip.mp (made_of_generateApis made)
  have filed {operation : Operation} {api : Api}
      (member : (operation, api) ∈ (options.chosen operations).zip apis) :
      api.filePath = operation.filePath := by
    obtain ⟨_, _, own⟩ := ran member
    exact filePath_of_generated own
  have meets {operation partner : Operation} {api other : Api}
      (member : (operation, api) ∈ (options.chosen operations).zip apis)
      (member' : (partner, other) ∈ (options.chosen operations).zip apis) :
      (∃ path ∈ other.writtenPaths schemas target,
          Path.absolute directory path = Path.absolute directory (target.apiPath api)) ↔
        operation.MeetsIn (Path.absolute directory target.functions) schemas partner other := by
    obtain ⟨_, _, own⟩ := ran member'
    have inside := List.mem_of_mem_filter (List.of_mem_zip member').1
    have known := method_of_searchOperations searched partner (chosen inside)
    obtain ⟨query, models⟩ := solid_interfaces solid' known keyed own
    exact meetsIn_iff directory single beside (filed member) (filed member') query models
  constructor
  · rintro apart ⟨operation, api⟩ member ⟨partner, other⟩ member' taken
    obtain ⟨path, written, same⟩ := (meets member member').mpr taken
    exact apart api (List.of_mem_zip member).2 other (List.of_mem_zip member').2 path written same
  · intro free api listed other listed' path written same
    obtain ⟨operation, member⟩ := exists_mem_zip length listed
    obtain ⟨partner, member'⟩ := exists_mem_zip length listed'
    exact free _ member _ member' ((meets member member').mp ⟨path, written, same⟩)

section Users

/-- The operation of `pagedUsers`, and one that stands in the directory of its query interface. -/
def queriedDocument (path : String) : Entries :=
  [(.text "paths", .record [("/users", .record [("get", .record [("parameters",
    .list [.object pageParameter])])]), (path, .record [("get", .object [])])])]

theorem searched_queriedDocument (path : String) :
    searchOperations (queriedDocument path) none = .ok [pagedUsers, bareOperation path "get"] := by
  rfl

theorem placeFrom_pagedUsers : pagedUsers.placeFrom ["work", "src"] = ["work", "src"] := by
  rw [Operation.placeFrom, urlNames_pagedUsers]
  decide

theorem functions_meet_users : ∃ api other,
    (generateApis {} [pagedUsers, bareOperation "/query/IndexUsersQuery/list" "get"]).outcome =
      (.ok [api, other], []) ∧
    ∃ path ∈ api.writtenPaths friends { functions := "src" }, Path.absolute ["work"] path =
      Path.absolute ["work"] (OutputTarget.apiPath { functions := "src" } other) := by
  obtain ⟨api, model, ran, asked, spelled⟩ := yields_pagedUsers
  obtain ⟨source, -, ran'⟩ := yields_bareOperation "/query/IndexUsersQuery/list" "get"
  have made := @generateApis_of_forall₂ {} [pagedUsers, bareOperation _ "get"] _
    (.cons ran (.cons ran' .nil))
  have names : (bareOperation "/query/IndexUsersQuery/list" "get").urlNames =
      ⟨"list", "IndexUsersQuery", "query", []⟩ :=
    (by decide : UrlNames.parse "/query/IndexUsersQuery/list" =
      ⟨"list", "IndexUsersQuery", "query", []⟩)
  have place : (bareOperation "/query/IndexUsersQuery/list" "get").placeFrom ["work", "src"] =
      pagedUsers.placeFrom ["work", "src"] ++ ["query"] := by
    rw [placeFrom_pagedUsers, Operation.placeFrom, names]
    decide
  obtain ⟨query, models⟩ := @solid_interfaces {} _ _ friends _ _ ⟨by simp, by simp⟩
    (by decide) (by decide) ran
  refine ⟨api, _, made, (meetsIn_iff _ rfl rfl (filePath_of_generated ran')
    (filePath_of_generated ran) query models).mpr (.query place asked ?_)⟩
  rw [names, spelled]

theorem functions_apart_users : ∃ api other,
    (generateApis {} [pagedUsers, bareOperation "/query/users/list" "get"]).outcome =
      (.ok [api, other], []) ∧ api.queryModel.isSome ∧
    ∀ first ∈ [api, other], ∀ second ∈ [api, other],
      ∀ path ∈ second.writtenPaths friends { functions := "src" },
        Path.absolute ["work"] path ≠
          Path.absolute ["work"] (OutputTarget.apiPath { functions := "src" } first) := by
  obtain ⟨api, model, ran, asked, spelled⟩ := yields_pagedUsers
  obtain ⟨source, -, ran'⟩ := yields_bareOperation "/query/users/list" "get"
  have made := @generateApis_of_forall₂ {} [pagedUsers, bareOperation _ "get"] _
    (.cons ran (.cons ran' .nil))
  have names : (bareOperation "/query/users/list" "get").urlNames =
      ⟨"list", "users", "query", []⟩ :=
    (by decide : UrlNames.parse "/query/users/list" = ⟨"list", "users", "query", []⟩)
  have place : (bareOperation "/query/users/list" "get").placeFrom ["work", "src"] =
      ["work", "src", "query"] := by
    rw [Operation.placeFrom, names]
    decide
  refine ⟨api, _, made, by rw [asked]; rfl, ?_⟩
  apply (functions_apart_iff (searched_queriedDocument _) (List.Subset.refl _) made
    ⟨by simp, by simp⟩ (by decide) (by decide) rfl ["work"]).mpr
  have root : Path.absolute ["work"] "src" = ["work", "src"] := by decide
  intro first member second member' meets
  dsimp only at meets
  rw [root] at meets
  rcases List.mem_pair.mp member with rfl | rfl
  · have last := meets.last
    rw [placeFrom_pagedUsers] at last
    exact absurd last (by decide)
  · cases meets with
    | model leads | index leads =>
        have last := congrArg List.getLast? leads
        rw [place, List.getLast?_concat] at last
        exact absurd last (by decide)
    | query leads asked' named =>
        rcases List.mem_pair.mp member' with rfl | rfl
        · rw [asked] at asked'
          obtain rfl := Option.some.inj asked'
          rw [names, spelled] at named
          exact absurd named (by decide)
        · rw [Operation.api_queryModel] at asked'
          cases asked'

end Users

end TypedClient

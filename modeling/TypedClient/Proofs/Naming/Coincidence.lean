import TypedClient.Proofs.Api.Signature
import TypedClient.Proofs.Naming.FunctionName
import TypedClient.Proofs.Naming.Url
import TypedClient.Proofs.Path

namespace TypedClient

structure Telling (shown : String → String) : Prop where
  behind : ∀ method ∈ httpMethods, ∀ rest, shown (method ++ rest) = shown method ++ rest
  free : PrefixFree (httpMethods.map shown)
  apart : ∀ first ∈ httpMethods, ∀ second ∈ httpMethods, shown first = shown second →
    first = second

theorem telling_id : Telling id where
  behind := fun _ _ _ => rfl
  free := by
    rw [List.map_id]
    exact prefixFree_httpMethods
  apart := fun _ _ _ _ same => same

theorem telling_upperFirst : Telling upperFirst where
  behind := by
    intro method member rest
    have given : method ≠ "" := by
      rintro rfl
      exact absurd member (by decide)
    obtain ⟨c, others, shape⟩ := List.exists_cons_of_ne_nil
      (mt String.toList_eq_nil_iff.mp given)
    apply String.toList_inj.mp
    simp [upperFirst, shape, Naming.capitalize]
  free := prefixFree_capitals
  apart := upperFirst_injOn

def NameForm.Known : NameForm → Prop
  | behind method _ => method ∈ httpMethods
  | _ => True

/-- Names are shown alike exactly if they coincide. -/
theorem Telling.iff_coincides {shown : String → String} (telling : Telling shown)
    {first second : NameForm} (known : first.Known) (known' : second.Known) :
    shown first.text = shown second.text ↔ first.Coincides shown second := by
  cases first with
  | identified tail => exact Iff.rfl
  | plain name => exact Iff.rfl
  | behind method rest =>
      cases second with
      | identified tail => exact Iff.rfl
      | plain name => exact Iff.rfl
      | behind method' rest' =>
          change shown (method ++ rest) = shown (method' ++ rest') ↔ method = method' ∧ rest = rest'
          rw [telling.behind method known, telling.behind method' known',
            telling.free.append_inj (List.mem_map_of_mem known) (List.mem_map_of_mem known')]
          constructor
          · rintro ⟨same, rest⟩
            exact ⟨telling.apart method known method' known' same, rest⟩
          · rintro ⟨rfl, rest⟩
            exact ⟨rfl, rest⟩

theorem known_nameForm {operation : Operation} (known : operation.method ∈ httpMethods) :
    operation.nameForm.Known := by
  unfold Operation.nameForm
  split
  · trivial
  · exact known
  · trivial

/-- Two query interfaces have the same name: with the same file in capitals, if the names of their
functions coincide; otherwise if the longer file goes on as the function of the shorter begins. -/
inductive QueriesCoincide (file file' : String) (form form' : NameForm) : Prop
  | same : upperFirst file = upperFirst file' → form.Coincides upperFirst form' →
      QueriesCoincide file file' form form'
  | longer {rest : String} : rest ≠ "" → upperFirst file = upperFirst file' ++ rest →
      upperFirst form'.text = rest ++ upperFirst form.text → QueriesCoincide file file' form form'
  | shorter {rest : String} : rest ≠ "" → upperFirst file' = upperFirst file ++ rest →
      upperFirst form.text = rest ++ upperFirst form'.text → QueriesCoincide file file' form form'

theorem append_eq_append_cases {first second first' second' : String}
    (same : first ++ second = first' ++ second') : first = first' ∧ second = second' ∨
      (∃ rest ≠ "", first = first' ++ rest ∧ second' = rest ++ second) ∨
      ∃ rest ≠ "", first' = first ++ rest ∧ second = rest ++ second' := by
  have texts := congrArg String.toList same
  rw [String.toList_append, String.toList_append] at texts
  have joined {front whole : String} {rest : List Char}
      (longer : whole.toList = front.toList ++ rest) : whole = front ++ String.ofList rest := by
    apply String.toList_inj.mp
    rw [longer, String.toList_append, String.toList_ofList]
  have behind {whole back : String} {rest : List Char}
      (longer : whole.toList = rest ++ back.toList) : whole = String.ofList rest ++ back := by
    apply String.toList_inj.mp
    rw [longer, String.toList_append, String.toList_ofList]
  by_cases equal : first = first'
  · subst equal
    exact .inl ⟨rfl, (String.append_right_inj _).mp same⟩
  · have given {rest : String} {a b : String} (longer : a = b ++ rest) (differs : a ≠ b) :
        rest ≠ "" := by
      rintro rfl
      exact differs (by rw [longer, String.append_empty])
    rcases List.append_eq_append_iff.mp texts with ⟨rest, front, back⟩ | ⟨rest, front, back⟩
    · exact .inr (.inr ⟨_, given (joined front) (Ne.symm equal), joined front, behind back⟩)
    · exact .inr (.inl ⟨_, given (joined front) equal, joined front, behind back⟩)

theorem queriesCoincide_iff {file file' : String} {form form' : NameForm} (known : form.Known)
    (known' : form'.Known) : upperFirst file ++ upperFirst form.text =
      upperFirst file' ++ upperFirst form'.text ↔ QueriesCoincide file file' form form' := by
  have telling := telling_upperFirst.iff_coincides known known'
  constructor
  · intro same
    rcases append_eq_append_cases same with ⟨files, texts⟩ | ⟨rest, given, longer, behind⟩ |
      ⟨rest, given, longer, behind⟩
    · exact .same files (telling.mp texts)
    · exact .longer given longer behind
    · exact .shorter given longer behind
  · rintro (⟨files, coincides⟩ | ⟨-, longer, behind⟩ | ⟨-, longer, behind⟩)
    · rw [files, telling.mpr coincides]
    · rw [longer, behind, String.append_assoc]
    · rw [longer, behind, String.append_assoc]

theorem fileName_of_filePath {first second : Operation}
    (shared : first.filePath = second.filePath) :
    first.urlNames.fileName = second.urlNames.fileName := by
  have named (operation : Operation) :
      Path.name operation.filePath = operation.urlNames.fileName ++ ".ts" := by
    refine (Path.name_join _ _).trans (Path.name_of_whole ?_)
    intro c member
    rw [Path.isSlash, beq_eq_false_iff_ne]
    rintro rfl
    rw [String.toList_append, List.mem_append] at member
    rcases member with file | ending
    · exact slash_fileName operation.path file
    · exact absurd ending (by decide)
  have same := congrArg Path.name shared
  rw [named, named] at same
  exact (String.append_left_inj _).mp same

section Generated

variable {options : GenerateOptions} {operations : List Operation} {apis : List Api}

theorem names_of_mem {notices : List Notice} (unnamed : options.funcName = none)
    (made : (generateApis options operations).outcome = (.ok apis, notices))
    {operation : Operation} {api : Api}
    (member : (operation, api) ∈ (options.chosen operations).zip apis) :
    operation ∈ operations ∧ api.filePath = operation.filePath ∧
      api.funcName = operation.nameForm.text ∧ ∀ model, api.queryModel = some model →
        model.typeName = model.fileName ∧ model.fileName =
          upperFirst operation.urlNames.fileName ++ upperFirst operation.nameForm.text ++
            "Query" ∧ model.fileDir = Path.join operation.urlNames.dirName "query" := by
  obtain ⟨before, after, ran⟩ := List.forall₂_iff_zip.mp (made_of_generateApis made) |>.2 member
  have inside := List.mem_of_mem_filter (List.of_mem_zip member).1
  obtain ⟨shown, source, found, -, rfl⟩ := (yields_generateApi _ _ _ _ _).mp ran
  have named : operation.funcName (options.forSeveral operations).funcName =
      operation.nameForm.text := by
    rw [GenerateOptions.funcName_forSeveral unnamed, funcName_eq]
  rw [Operation.api_funcName, Operation.api_filePath, Operation.api_queryModel]
  refine ⟨inside, rfl, named, fun model asked => ?_⟩
  obtain ⟨file, type, directory⟩ := query_of_ofOperation found asked
  rw [type, file, Operation.queryName, named]
  exact ⟨rfl, rfl, directory⟩

/-- Of two operations the functions have the same name exactly if what their names are from
coincides, and the query interfaces exactly if it does so together with their files. For functions
of one file this is so exactly if what their names are from coincides in capitals. -/
theorem names_coincide {document : Entries} {keyword : Option String} {notices : List Notice}
    (unnamed : options.funcName = none)
    (searched : searchOperations document keyword = .ok operations)
    (made : (generateApis options operations).outcome = (.ok apis, notices))
    {first second : Operation} {api other : Api}
    (member : (first, api) ∈ (options.chosen operations).zip apis)
    (member' : (second, other) ∈ (options.chosen operations).zip apis) :
    ∃ form form', first.Origin form ∧ second.Origin form' ∧
      (api.funcName = other.funcName ↔ form.Coincides id form') ∧
      ∀ model model', api.queryModel = some model → other.queryModel = some model' →
        (model.fileName = model'.fileName ↔ QueriesCoincide first.urlNames.fileName
          second.urlNames.fileName form form') ∧
        (api.filePath = other.filePath →
          (model.fileName = model'.fileName ↔ form.Coincides upperFirst form')) := by
  obtain ⟨inside, path, name, query⟩ := names_of_mem unnamed made member
  obtain ⟨inside', path', name', query'⟩ := names_of_mem unnamed made member'
  have known := known_nameForm (method_of_searchOperations searched first inside)
  have known' := known_nameForm (method_of_searchOperations searched second inside')
  have same := telling_id.iff_coincides known known'
  rw [id_eq, id_eq, ← name, ← name'] at same
  refine ⟨_, _, origin_nameForm first, origin_nameForm second, same,
    fun model model' asked asked' => ?_⟩
  obtain ⟨-, spelled, -⟩ := query model asked
  obtain ⟨-, spelled', -⟩ := query' model' asked'
  rw [spelled, spelled', String.append_left_inj]
  refine ⟨queriesCoincide_iff known known', fun shared => ?_⟩
  have file := fileName_of_filePath (path.symm.trans (shared.trans path'))
  rw [file, String.append_right_inj, telling_upperFirst.iff_coincides known known']

end Generated

section Users

def bareOperation (path method : String) : Operation where
  path
  method
  summary := none
  description := none
  tags := []
  operationId := none
  parameters := []
  requestBody := none
  responses := []
  deprecated := false

/-- A document with two operations of one path. -/
def pathDocument (path method method' : String) : Entries :=
  [(.text "paths", .record [(path, .record [(method, .object []), (method', .object [])])])]

theorem searched_users : searchOperations (pathDocument "/users" "get" "post") none =
    .ok [bareOperation "/users" "get", bareOperation "/users" "post"] := by
  rfl

theorem filePath_of_path {first second : Operation} (same : first.path = second.path) :
    first.filePath = second.filePath := by
  rw [Operation.filePath, Operation.filePath, Operation.urlNames, Operation.urlNames, same]

theorem yields_bareOperation (path method : String) : ∃ source, source ≠ "" ∧
    Yields (generateApi {} (bareOperation path method)) []
      ((bareOperation path method).api {} {} source) [] := by
  have shown (url : UrlNames) (name : String) :
      ShownSchemas.ofOperation {} url name (bareOperation path method) = .ok {} := rfl
  have strings : ∀ param ∈ ((bareOperation path method).context {} {}).pathParams,
      param.schema = stringSchema := by
    rw [Operation.context_pathParams]
    exact schema_of_undescribed rfl
  obtain ⟨types, sourced⟩ := @yields_sourceOf_strings {} _ rfl rfl rfl strings []
  have ran := (yields_generateApi {} (bareOperation path method) _ [] []).mpr
    ⟨{}, _, shown _ _, sourced, rfl⟩
  exact ⟨_, declare_ne_empty _ _, ran⟩

theorem generateApis_bareOperation (path method method' : String) : ∃ api other,
    (generateApis {} [bareOperation path method, bareOperation path method']).outcome =
      (.ok [api, other], []) ∧ api.filePath = other.filePath := by
  obtain ⟨source, -, ran⟩ := yields_bareOperation path method
  obtain ⟨source', -, ran'⟩ := yields_bareOperation path method'
  have made := @generateApis_of_forall₂ {} [bareOperation path method, bareOperation path method'] _
    (.cons ran (.cons ran' .nil))
  refine ⟨_, _, made, ?_⟩
  rw [Operation.api_filePath, Operation.api_filePath]
  exact filePath_of_path rfl

def pageParameter : Entries :=
  [(.text "name", .text "page"), (.text "in", .text "query"), (.text "schema", stringSchema)]

def pagedOperation (path : String) : Operation := { bareOperation path "get" with
  parameters := [pageParameter] }

/-- A document whose paths have a query parameter each. -/
def pagedPaths (paths : List String) : Entries :=
  [(.text "paths", .record (paths.map fun path =>
    (path, .record [("get", .record [("parameters", .list [.object pageParameter])])])))]

theorem queryOf_page (url : UrlNames) (name : String) : ∃ made,
    ShownSchemas.queryOf {} url name [pageParameter] = .ok (some made) := by
  have fields : queryParamsOf [pageParameter] =
      .ok [{ name := "page", required := false, schema := stringSchema }] := by
    rfl
  have typed : schemaCode {} "  " {} stringSchema =
      .ok (({} : Generics).fill [.type "string" []]) := by
    rw [schemaCode_eq, schemaPieces_string]
    rfl
  rw [ShownSchemas.queryOf, fields]
  change ∃ made, some <$> queryModelOf {} url name
    [{ name := "page", required := false, schema := stringSchema }] = .ok (some made)
  rw [queryModelOf, queryCode, List.mapM_cons, List.mapM_nil, parameterCode, typed]
  exact ⟨_, rfl⟩

theorem yields_pagedOperation {path : String} (fixed : (UrlNames.parse path).pathParams = []) :
    ∃ api model, Yields (generateApi {} (pagedOperation path)) [] api [] ∧
      api.queryModel = some model := by
  obtain ⟨⟨model, refs⟩, asked⟩ := queryOf_page (pagedOperation path).urlNames
    ((pagedOperation path).queryName none)
  have shown : ShownSchemas.ofOperation {} (pagedOperation path).urlNames
      ((pagedOperation path).queryName none) (pagedOperation path) =
        .ok { query := some (model, refs) } := by
    have parameters : (pagedOperation path).parameters = [pageParameter] := rfl
    rw [ShownSchemas.ofOperation, parameters, asked]
    rfl
  have strings : ∀ param ∈ ((pagedOperation path).context {}
      { query := some (model, refs) }).pathParams, param.schema = stringSchema := by
    have none : (pagedOperation path).urlNames.pathParams = [] := fixed
    intro param member
    rw [Operation.context_pathParams, pathParamsOf, none] at member
    cases member
  obtain ⟨types, sourced⟩ := @yields_sourceOf_strings {} _ rfl rfl rfl strings []
  have ran := (yields_generateApi {} (pagedOperation path) _ [] []).mpr
    ⟨_, _, shown, sourced, rfl⟩
  refine ⟨_, model, ran, ?_⟩
  rw [Operation.api_queryModel]
  rfl

theorem plain_users (method : String) :
    (bareOperation "/users" method).nameForm = .plain "users" := by
  have names : (bareOperation "/users" method).urlNames = ⟨"users", "index", "", []⟩ :=
    (by decide : UrlNames.parse "/users" = ⟨"users", "index", "", []⟩)
  rw [nameForm_plain rfl (by rw [names]; decide), names]

theorem urlNames_groups :
    (pagedOperation "/user/groupList").urlNames = ⟨"groupList", "user", "", []⟩ ∧
      (pagedOperation "/userGroup/list").urlNames = ⟨"list", "userGroup", "", []⟩ :=
  (by decide : UrlNames.parse "/user/groupList" = ⟨"groupList", "user", "", []⟩ ∧
    UrlNames.parse "/userGroup/list" = ⟨"list", "userGroup", "", []⟩)

/-- Two operations of a document, and what is generated of them together. -/
def GeneratedTogether (document : Entries) (first second : Operation) (api other : Api) : Prop :=
  ∃ operations apis notices, searchOperations document none = .ok operations ∧
    (generateApis {} operations).outcome = (.ok apis, notices) ∧
    (first, api) ∈ (GenerateOptions.chosen {} operations).zip apis ∧
    (second, other) ∈ (GenerateOptions.chosen {} operations).zip apis

theorem together_users : ∃ api other,
    GeneratedTogether (pathDocument "/users" "get" "post") (bareOperation "/users" "get")
      (bareOperation "/users" "post") api other ∧
    api.filePath = other.filePath ∧ api.funcName = other.funcName := by
  obtain ⟨api, other, made, shared⟩ := generateApis_bareOperation "/users" "get" "post"
  have member : (bareOperation "/users" "get", api) ∈ (GenerateOptions.chosen {}
    [bareOperation "/users" "get", bareOperation "/users" "post"]).zip [api, other] := .head _
  have member' : (bareOperation "/users" "post", other) ∈ (GenerateOptions.chosen {}
    [bareOperation "/users" "get", bareOperation "/users" "post"]).zip [api, other] :=
    .tail _ (.head _)
  obtain ⟨-, -, name, -⟩ := names_of_mem rfl made member
  obtain ⟨-, -, name', -⟩ := names_of_mem rfl made member'
  refine ⟨api, other, ⟨_, _, _, searched_users, made, member, member'⟩, shared, ?_⟩
  rw [name, name', plain_users, plain_users]

theorem searched_groups :
    searchOperations (pagedPaths ["/user/groupList", "/userGroup/list"]) none =
      .ok [pagedOperation "/user/groupList", pagedOperation "/userGroup/list"] := by
  rfl

theorem nameForm_groups : (pagedOperation "/user/groupList").nameForm = .plain "groupList" ∧
    (pagedOperation "/userGroup/list").nameForm = .plain "list" := by
  obtain ⟨names, names'⟩ := urlNames_groups
  constructor
  · rw [nameForm_plain rfl (by rw [names]; decide), names]
  · rw [nameForm_plain rfl (by rw [names']; decide), names']

theorem together_groups : ∃ api other model model',
    GeneratedTogether (pagedPaths ["/user/groupList", "/userGroup/list"])
      (pagedOperation "/user/groupList") (pagedOperation "/userGroup/list") api other ∧
    api.queryModel = some model ∧ other.queryModel = some model' ∧
    model.fileDir = model'.fileDir ∧ model.fileName = model'.fileName := by
  obtain ⟨api, model, ran, asked⟩ := @yields_pagedOperation "/user/groupList" (by decide)
  obtain ⟨other, model', ran', asked'⟩ := @yields_pagedOperation "/userGroup/list" (by decide)
  have made := @generateApis_of_forall₂ {}
    [pagedOperation "/user/groupList", pagedOperation "/userGroup/list"] _
    (.cons ran (.cons ran' .nil))
  have member : (pagedOperation "/user/groupList", api) ∈ (GenerateOptions.chosen {}
    [pagedOperation "/user/groupList", pagedOperation "/userGroup/list"]).zip [api, other] :=
    .head _
  have member' : (pagedOperation "/userGroup/list", other) ∈ (GenerateOptions.chosen {}
    [pagedOperation "/user/groupList", pagedOperation "/userGroup/list"]).zip [api, other] :=
    .tail _ (.head _)
  obtain ⟨-, -, -, query⟩ := names_of_mem rfl made member
  obtain ⟨-, -, -, query'⟩ := names_of_mem rfl made member'
  obtain ⟨-, file, directory⟩ := query model asked
  obtain ⟨-, file', directory'⟩ := query' model' asked'
  obtain ⟨names, names'⟩ := urlNames_groups
  obtain ⟨form, form'⟩ := nameForm_groups
  refine ⟨api, other, model, model', ⟨_, _, _, searched_groups, made, member, member'⟩, asked,
    asked', ?_, ?_⟩
  · rw [directory, directory', names, names']
  · rw [file, file', names, names', form, form']
    decide

/-- Two methods of one path whose functions both have the name that stands alone, and two paths
whose query interfaces are written to one file. -/
theorem operations_collide :
    (∃ first second api other,
      GeneratedTogether (pathDocument "/users" "get" "post") first second api other ∧
      first.method ≠ second.method ∧ api.filePath = other.filePath ∧
      api.funcName = other.funcName) ∧
    ∃ first second api other model model',
      GeneratedTogether (pagedPaths ["/user/groupList", "/userGroup/list"]) first second api
        other ∧
      first.path ≠ second.path ∧ api.queryModel = some model ∧ other.queryModel = some model' ∧
      model.fileDir = model'.fileDir ∧ model.fileName = model'.fileName := by
  obtain ⟨api, other, users, shared, same⟩ := together_users
  obtain ⟨first, second, model, model', groups, asked, asked', directory, file⟩ := together_groups
  exact ⟨⟨_, _, api, other, users, by decide, shared, same⟩,
    _, _, first, second, model, model', groups, by decide, asked, asked', directory, file⟩

theorem names_coincide_users : ∃ api other,
    (generateApis {} [bareOperation "/users/\x7bid\x7d" "get",
      bareOperation "/users/\x7bid\x7d" "delete"]).outcome = (.ok [api, other], []) ∧
    api.filePath = other.filePath ∧ api.funcName ≠ other.funcName := by
  obtain ⟨api, other, made, shared⟩ :=
    generateApis_bareOperation "/users/\x7bid\x7d" "get" "delete"
  have searched : searchOperations (pathDocument "/users/\x7bid\x7d" "get" "delete") none =
    .ok [bareOperation "/users/\x7bid\x7d" "get", bareOperation "/users/\x7bid\x7d" "delete"] := rfl
  have origin (method : String) : (bareOperation "/users/\x7bid\x7d" method).Origin
      (.behind method (upperFirst (singularize "users") ++ paramSuffix ["id"])) :=
    @Operation.Origin.parameters _ [] "users" ["id"] rfl (by decide)
      (by decide : segmentsOf "/users/\x7bid\x7d" = [.name "users", .param "id"])
  obtain ⟨form, form', named, named', same, -⟩ :=
    names_coincide rfl searched made (.head _) (.tail _ (.head _))
  refine ⟨api, other, made, shared, ?_⟩
  rw [Ne, same, named.unique (origin _), named'.unique (origin _)]
  exact fun same => absurd same.1 (by decide)

end Users

end TypedClient

import TypedClient.Proofs.Api.Shown
import TypedClient.Proofs.Closure.ReachableModels
import TypedClient.Proofs.Interface.Pieces

namespace TypedClient

open Closure

section Models

variable {context : FieldContext} {order : List String} {models : List Model}

theorem expansion_of_modelKey (referenced : Referenced context.schemas)
    (unmapped : context.mapping = []) {key : String} {found : Option Reached}
    (model : IsModelKey context.schemas key) (ran : expansion context key = .ok found) :
    ∃ code, found = some ⟨key, code⟩ ∧ code.fileName = key := by
  obtain ⟨schema, held, own, judged⟩ := model
  have plain := referenced.keys _ (Schemas.mem_of_find held)
  have leads := schemaKey_of_plain plain
  have ends : resolve context.schemas key = .ok (some (key, schema)) := by
    rw [resolve, leads]
    exact resolveIn_own held own
  have decoded := parse_of_plain plain leads
  unfold expansion at ran
  rw [unmapped, decoded, if_pos (isModelName_of_plain plain), ends] at ran
  obtain ⟨target, same, ran⟩ := (bind_eq_ok _ _ _).mp ran
  cases same
  obtain ⟨verdict, same, ran⟩ := (bind_eq_ok _ _ _).mp ran
  rw [judged] at same
  cases same
  obtain ⟨code, made, same⟩ := (bind_eq_ok _ _ _).mp ran
  cases same
  have file := fileName_modelCode made
  rw [leads, unmapped, decoded] at file
  exact ⟨code, rfl, file⟩

theorem kept_of_modelKey (referenced : Referenced context.schemas)
    (unmapped : context.mapping = []) (whole : context.ignores = [])
    (all : ∀ key ∈ order, ∃ found, expansion context key = .ok found)
    (selected : Selection (candidates context order) models) {key : String} (member : key ∈ order)
    (model : IsModelKey context.schemas key) : ∃ model ∈ models, model.fileName = key := by
  obtain ⟨found, ran⟩ := all key member
  obtain ⟨code, rfl, file⟩ := expansion_of_modelKey referenced unmapped model ran
  have reached : ⟨key, code⟩ ∈ order.filterMap (expanded context) :=
    List.mem_filterMap.mpr ⟨key, member, (expanded_eq_some_iff _).mpr ran⟩
  have candidate : Model.ofReached ⟨key, code⟩ ∈ candidates context order := by
    refine List.mem_map_of_mem (List.mem_filter.mpr ⟨reached, ?_⟩)
    simp [isAllowed, whole]
  have named : key ∈ (candidates context order).map (·.fileName) :=
    List.mem_map.mpr ⟨_, candidate, file⟩
  obtain ⟨model, inside, same⟩ := List.mem_map.mp ((selected.mem_files key).mp named)
  exact ⟨model, inside, same⟩

theorem imports_of_kept (referenced : Referenced context.schemas)
    (unmapped : context.mapping = []) (whole : context.ignores = []) {start : List String}
    (first : BreadthFirst start (childKeys context) order)
    (selected : Selection (candidates context order) models) {model : Model}
    (member : model ∈ models) :
    ∀ name ∈ model.typeNames, name ∈ order ∧ IsModelKey context.schemas name := by
  obtain ⟨found, kept, rfl⟩ := List.mem_map.mp (selected.mem_candidates member)
  obtain ⟨key, taken, reached⟩ := List.mem_filterMap.mp (List.mem_filter.mp kept).1
  obtain ⟨-, schema, led, -, made⟩ :=
    (expansion_eq_some_iff found).mp ((expanded_eq_some_iff found).mp reached)
  have linked := linked_modelCode referenced unmapped whole (ends_of_resolve led).1 made
  intro name imported
  obtain ⟨ref, inside, rfl⟩ := List.mem_map.mp (linked.named name imported)
  refine ⟨?_, linked.models ref inside⟩
  have child : schemaKey ref ∈ childKeys context key := by
    simpa [childKeys, reached] using ⟨ref, inside, rfl⟩
  exact (first.mem_iff _).mpr (.child ((first.mem_iff key).mp taken) child)

end Models

/-- The models for a directory are closed: they hold a model for each model key that the references
lead to at once, and one for each name that they import. -/
theorem closed_modelsFor {options : GenerateOptions} {schemas : Schemas} {directory : String}
    {refs : List String} {models : List Model} {notices : List Notice}
    (referenced : Referenced schemas) (unmapped : options.mapping = [])
    (whole : options.ignores = [])
    (ran : (modelsFor options directory refs schemas).outcome = (.ok models, notices)) :
    (∀ key ∈ refs.map schemaKey, IsModelKey schemas key →
      ∃ model ∈ models, model.fileName = key) ∧
    ∀ model ∈ models, ∀ name ∈ model.typeNames, ∃ other ∈ models, other.fileName = name := by
  let context : FieldContext :=
    { mapping := options.mapping, schemas, ignores := options.ignores }
  have known : Referenced context.schemas := referenced
  rw [Noted.yields_outcome, modelsFor] at ran
  obtain ⟨found, _, walked, ends⟩ := (yields_bind _ _ _ _ _).mp ran
  obtain ⟨rfl, -⟩ := (yields_pure _ _ _ _).mp ends
  obtain ⟨all, chosen, -⟩ := (yields_reachableModels context refs found _).mp walked
  have selected := (Selection.iff_eq _ _).mpr chosen
  have first := breadthFirst_visited (refs.map schemaKey) (childKeys_within context)
  have shown : ∀ key, (∃ model ∈ found, model.fileName = key) →
      ∃ model ∈ found.map (fun model => { model with fileDir := directory }),
        model.fileName = key := by
    rintro key ⟨model, inside, same⟩
    exact ⟨_, List.mem_map_of_mem inside, same⟩
  constructor
  · intro key member model
    have taken := (first.mem_iff key).mpr (.start member)
    exact shown key (kept_of_modelKey known unmapped whole all selected taken model)
  · intro model member name imported
    obtain ⟨kept, inside, rfl⟩ := List.mem_map.mp member
    obtain ⟨taken, model⟩ :=
      imports_of_kept known unmapped whole first selected inside name imported
    exact shown name (kept_of_modelKey known unmapped whole all selected taken model)

/-- The import lines of what is generated for an operation name generated models. -/
theorem imports_generated {options : GenerateOptions} {operation : Operation} {api : Api}
    {models : List Model} {notices later : List Notice} (unmapped : options.mapping = [])
    (whole : options.ignores = []) (keys : ∀ entry ∈ options.schemas, isPlainKey entry.1 = true)
    (formed : ∀ entry ∈ options.schemas, RefsFormed options.schemas entry.2)
    (plain : ∀ entry ∈ options.schemas, ChoicesPlain entry.2)
    (acyclic : NoInPlaceCycle options.schemas)
    (asked : ∀ value ∈ operation.contents, RefsFormed options.schemas value)
    (inert : ∀ value ∈ operation.contents, ChoicesInert value)
    (made : (generateApi options operation).outcome = (.ok api, notices))
    (listed : (api.models options.schemas).outcome = (.ok models, later)) :
    ∀ name ∈ api.typeNames ++ api.queryNames ++ models.flatMap (·.typeNames),
      ∃ model ∈ models, model.fileName = name := by
  have referenced : Referenced options.schemas :=
    ⟨keys, fun entry member => ⟨formed entry member, (plain entry member).inert⟩, acyclic⟩
  obtain ⟨linked, directory, same⟩ := linked_generateApi referenced unmapped whole
    (fun value member => ⟨asked value member, inert value member⟩) made
  rw [same] at listed
  obtain ⟨started, closed⟩ := closed_modelsFor referenced unmapped whole listed
  intro name member
  rcases List.mem_append.mp member with own | imported
  · obtain ⟨ref, inside, rfl⟩ := List.mem_map.mp (linked.named name own)
    exact started _ (List.mem_map_of_mem inside) (linked.models ref inside)
  · obtain ⟨model, inside, named⟩ := List.mem_flatMap.mp imported
    exact closed model inside name named

section Friends

def toUser : Value := .record [("$ref", .text (refTo "User"))]

/-- A model that refers to itself. -/
def user : Value :=
  .record [("type", .text "object"), ("properties", .record [("friend", toUser)])]

def friends : Schemas := [("User", user)]

def showFriend : Operation := {
  path := "/friend"
  method := "get"
  summary := none
  description := none
  tags := []
  operationId := none
  parameters := []
  requestBody := none
  responses := [(.text "200", .record [("content", .record [("application/json",
    .record [("schema", toUser)])])])]
  deprecated := false }

def friendOptions : GenerateOptions := { onlyModel := true, schemas := friends }

theorem friends_formed : ∀ entry ∈ friends, RefsFormed friends entry.2 := by
  intro entry member ref within
  obtain rfl := List.mem_singleton.mp member
  simp [user, toUser, Value.record, entryWithin_object, entryWithin_scalar] at within
  exact ⟨"User", by decide, within⟩

theorem friends_plain : ∀ entry ∈ friends, ChoicesPlain entry.2 := by
  intro entry member choices items within
  obtain rfl := List.mem_singleton.mp member
  simp [user, toUser, Value.record, entryWithin_object, entryWithin_scalar] at within

theorem showFriend_formed : ∀ value ∈ showFriend.contents, RefsFormed friends value := by
  intro value member ref within
  obtain rfl := List.mem_singleton.mp member
  simp [showFriend, toUser, Value.record, entryWithin_object, entryWithin_scalar] at within
  exact ⟨"User", by decide, within⟩

theorem showFriend_inert : ∀ value ∈ showFriend.contents, ChoicesInert value := by
  intro value member choices items within
  obtain rfl := List.mem_singleton.mp member
  simp [showFriend, toUser, Value.record, entryWithin_object, entryWithin_scalar] at within

theorem friends_models (key : String) (schema : Value) (found : friends.find? key = some schema) :
    schema.ref? = none ∧ isModel friends key schema = .ok true := by
  have member := List.mem_singleton.mp (Schemas.mem_of_find found)
  cases member
  have plain : isPlainKey "User" = true := by decide
  refine ⟨rfl, ?_⟩
  rw [isModel, parse_of_plain plain (schemaKey_of_plain plain),
    if_pos (isModelName_of_plain plain), flatten, user, Value.record]
  rw [flattenIn]
  rfl

theorem friend_isModelKey : IsModelKey friends "User" := by
  have found : friends.find? "User" = some user := by rfl
  have model := friends_models _ _ found
  exact ⟨_, found, model⟩

theorem typeOf_toUser :
    typeOf ⟨[], friends⟩ friends toUser = .ok ⟨.plain "User", [refTo "User"], ["User"]⟩ :=
  (@typeOf_refTo ⟨[], friends⟩ "User").trans
    (typeOfRef_named rfl (by decide) (friends_models "User"))

theorem showFriend_shown (url : UrlNames) (name : String) :
    ShownSchemas.ofOperation friendOptions url name showFriend =
      .ok { response := some ("User", [refTo "User"]) } := by
  have shown : shownType friendOptions toUser =
      .ok ("User", [refTo "User"]) := by
    unfold shownType friendOptions
    rw [typeOf_toUser]
    rfl
  have response : ShownSchemas.responseOf friendOptions showFriend.responses =
      .ok (some ("User", [refTo "User"])) := by
    unfold ShownSchemas.responseOf
    have schema : responseSchema showFriend.responses =
        .ok toUser := by rfl
    rw [schema]
    change some <$> shownType friendOptions toUser = _
    rw [shown]
    rfl
  unfold ShownSchemas.ofOperation
  rw [response]
  rfl

theorem generateApi_friend : ∃ api, (generateApi friendOptions showFriend).outcome = (.ok api, []) ∧
    ∃ directory, api.models = modelsFor friendOptions directory [refTo "User"] := by
  suffices ran : ∃ api, Yields (generateApi friendOptions showFriend) [] api [] ∧
      ∃ directory, api.models = modelsFor friendOptions directory [refTo "User"] from ran
  unfold generateApi
  simp only [yields_bind, yields_liftExcept, showFriend_shown, yields_pure]
  refine ⟨_, ⟨_, _, ⟨rfl, rfl⟩, "", _, ?_, rfl, rfl⟩, _, rfl⟩
  exact (yields_pure _ _ _ _).mpr ⟨rfl, rfl⟩

def friendContext : FieldContext := { schemas := friends }

theorem namedType_friend (ignores : List Ignore) (generics : Generics)
    (closed : generics.arguments = []) : ∃ code,
    namedType { friendContext with ignores } generics toUser = .ok (code, generics) := by
  rw [namedType_eq, plainType, friendContext]
  dsimp only
  rw [typeOf_toUser]
  refine ⟨_, congrArg Except.ok (Prod.ext rfl ?_)⟩
  rw [Generics.print, substitute_none closed]

theorem schemaCode_friend (ignores : List Ignore) (generics : Generics)
    (closed : generics.arguments = []) : ∃ code,
    schemaCode { friendContext with ignores } "  " generics toUser = .ok (code, generics) := by
  rw [schemaCode]
  split
  · rename_i properties own
    cases own
  · split
    · rename_i items listed
      cases listed
    · exact namedType_friend ignores generics closed

theorem fieldsCode_friend (ignores : List Ignore) (generics : Generics)
    (closed : generics.arguments = []) :
    ∃ body, fieldsCode { friendContext with ignores } "  " .null generics
      [(.text "friend", toUser)] = .ok (body, generics) := by
  have last : fieldsCode { friendContext with ignores } "  " .null generics [] =
      .ok ({}, generics) := by
    rw [fieldsCode]
  obtain ⟨code, typed⟩ := schemaCode_friend ignores generics closed
  rw [fieldsCode, typed]
  simp only [bind_eq_ok]
  exact ⟨_, _, rfl, _, rfl, _, last, rfl⟩

theorem modelCode_friend (ignores : List Ignore) {schema : Value}
    (found : friends.find? "User" = some schema) :
    ∃ code, modelCode { friendContext with ignores } "User" schema = .ok code := by
  have member := List.mem_singleton.mp (Schemas.mem_of_find found)
  cases member
  have plain : isPlainKey "User" = true := by decide
  have leads := schemaKey_of_plain plain
  have closed : (Generics.ofTypeName
      (SchemaName.parse friendContext.mapping (schemaKey "User")).typeName).arguments = [] := by
    rw [leads, friendContext, parse_of_plain plain leads, arguments_of_plain plain]
  obtain ⟨body, fields⟩ := fieldsCode_friend ignores _ closed
  have flat : flatten friendContext.schemas user = .ok user := by
    rw [flatten, user, Value.record]
    rw [flattenIn]
    rfl
  unfold modelCode
  simp only [bind_eq_ok]
  exact ⟨_, _, flat, _, rfl, _, fields, rfl⟩

theorem expansion_friend (ignores : List Ignore) :
    ∃ found, expansion { friendContext with ignores } "User" = .ok found := by
  obtain ⟨schema, found, own, judged⟩ := friend_isModelKey
  obtain ⟨code, made⟩ := modelCode_friend ignores found
  have plain : isPlainKey "User" = true := by decide
  have leads := schemaKey_of_plain plain
  refine ⟨some ⟨"User", code⟩, (expansion_eq_some_iff _).mpr ⟨?_, schema, ?_, judged, made⟩⟩
  · rw [friendContext, parse_of_plain plain leads]
    exact isModelName_of_plain plain
  · rw [resolve, leads]
    exact resolveIn_own found own

theorem keysWithin_friends : keysWithin friends = ["User"] := by
  have leads := schemaKey_refTo (by decide : isPlainKey "User" = true)
  simp [keysWithin, friends, user, toUser, Value.record, refsOf, refsOfEntries, refsOfEntry,
    leads, List.eraseDups_cons]

theorem modelsFor_friend (ignores : List Ignore) (directory : String) :
    ∃ models notices, (modelsFor { friendOptions with ignores } directory [refTo "User"]
      friends).outcome = (.ok models, notices) := by
  have leads := schemaKey_refTo (by decide : isPlainKey "User" = true)
  have start : [refTo "User"].map schemaKey = ["User"] := by simp [leads]
  have first := breadthFirst_visited ([refTo "User"].map schemaKey)
    (childKeys_within { friendContext with ignores })
  have only : ∀ key, Reachable ([refTo "User"].map schemaKey)
      (childKeys { friendContext with ignores }) key → key = "User" := by
    intro key reached
    cases reached with
    | start member => simpa [start] using member
    | child _ member =>
        simpa [friendContext, keysWithin_friends] using childKeys_within _ _ _ member
  have ran := (yields_reachableModels { friendContext with ignores } [refTo "User"] _ _).mpr
    ⟨?_, rfl, rfl⟩
  · exact ⟨_, _, (yields_bind _ _ _ _ _).mpr ⟨_, _, ran, (yields_pure _ _ _ _).mpr
      ⟨rfl, rfl⟩⟩⟩
  · intro key member
    rw [only key (first.least key member)]
    exact expansion_friend ignores

theorem imports_generated_friend : ∃ api models notices,
    (generateApi friendOptions showFriend).outcome = (.ok api, []) ∧
    (api.models friends).outcome = (.ok models, notices) ∧
    ∀ name ∈ api.typeNames ++ api.queryNames ++ models.flatMap (·.typeNames),
      ∃ model ∈ models, model.fileName = name := by
  obtain ⟨api, made, directory, same⟩ := generateApi_friend
  obtain ⟨models, notices, ran⟩ := modelsFor_friend [] directory
  have listed : (api.models friends).outcome = (.ok models, notices) := by
    rw [same]
    exact ran
  exact ⟨api, models, notices, made, listed, imports_generated rfl rfl (by decide) friends_formed
    friends_plain (noInPlaceCycle_of_models friends_models) showFriend_formed showFriend_inert
    made listed⟩

end Friends

end TypedClient

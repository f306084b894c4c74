import TypedClient.Api.Function
import TypedClient.Api.Models
import TypedClient.Api.Name
import TypedClient.Path

namespace TypedClient

structure GenerateOptions where
  funcName : Option String := none
  hook : Option Hook := none
  mapping : TypeMapping := []
  ignores : List Ignore := []
  onlyModel : Bool := false
  schemas : Schemas := []

/-- A generated function, where it is written, and the models that come with it. -/
structure Api where
  sourceCode : String := ""
  funcName : String
  fileName : String
  fileDir : String := ""
  filePath : String
  method : String
  url : String
  typeNames : List String := []
  queryModel : Option Model := none
  refs : List String := []
  models : Schemas → Noted (List Model)

def Api.mark (api : Api) : String := operationMark api.method api.url

def firstOf (content : Value) : Except Error (Option Value) :=
  if !content.isTrue then .ok none
  else
    match content with
    | .object entries => .ok (entries.head?.map (·.2))
    | _ => .error .notAnObject

def firstMediaSchema (holder : Entries) : Except Error (Option Value) := do
  match ← firstOf (Entries.field holder "content") with
  | none => return none
  | some media =>
    if !media.isTrue then return some .null
    match media with
    | .object entries => return some (Entries.field entries "schema")
    | _ => throw .notAnObject

def bodySchema (body : Entries) : Except Error Value :=
  if Entries.has body "$ref" then .ok (.object body)
  else (fun found => found.getD .null) <$> firstMediaSchema body

/-- The schema of the first successful response; null if there is none. -/
def responseSchema : Entries → Except Error Value
  | [] => .ok .null
  | (code, response) :: rest =>
    if code.display.toList.head? == some '2' then
      match response with
      | .object entries => (fun found => found.getD .null) <$> firstMediaSchema entries
      | _ => .ok .null
    else responseSchema rest

def describePathParam (parameters : List Entries) (param : FieldOption) : FieldOption :=
  parameters.foldl (fun param entries =>
    if (Entries.field entries "in").isText "path" &&
        (Entries.field entries "name").isText param.name then
      let schema := Entries.field entries "schema"
      { param with
        schema := if schema.isTrue then schema else param.schema
        description := Entries.field entries "description" }
    else param) param

def stringSchema : Value := .record [("type", .text "string")]

def pathParamsOf (url : UrlNames) (parameters : List Entries) : List FieldOption :=
  url.pathParams.map fun name =>
    describePathParam parameters { name, required := true, schema := stringSchema }

def queryParamOf (entries : Entries) : Except Error FieldOption :=
  FieldOption.ofEntries [
    (.text "name", (Entries.find? entries "name").getD (.text "")),
    (.text "required", .bool (Entries.field entries "required").isTrue),
    (.text "schema", Entries.field entries "schema"),
    (.text "description", Entries.field entries "description")]

def queryParamsOf (parameters : List Entries) : Except Error (List FieldOption) :=
  (parameters.filter fun entries => (Entries.field entries "in").isText "query").mapM queryParamOf

def queryModelOf (context : FieldContext) (url : UrlNames) (name : String)
    (fields : List FieldOption) : Except Error (Model × List String) := do
  let code ← queryCode context name fields
  let directory := Path.join url.dirName "query"
  return ({
    sourceCode := code.text
    typeName := name
    fileName := name
    fileDir := directory
    filePath := Path.join directory (name ++ ".ts")
    typeNames := code.typeNames }, code.refs)

/-- The type of a body or a response with its references, less the wrappers to be left out. -/
def shownType (options : GenerateOptions) (schema : Value) :
    Except Error (String × List String) := do
  let typed ← typeOf ⟨options.mapping, options.schemas⟩ options.schemas schema
  return (stripIgnored options.ignores typed.type.render, typed.refs)

structure ShownSchemas where
  query : Option (Model × List String) := none
  body : Option (String × List String) := none
  response : Option (String × List String) := none

namespace ShownSchemas

def queryOf (options : GenerateOptions) (url : UrlNames) (name : String)
    (parameters : List Entries) : Except Error (Option (Model × List String)) := do
  match ← queryParamsOf parameters with
  | [] => return none
  | fields =>
    some <$> queryModelOf { mapping := options.mapping, schemas := options.schemas } url name fields

def bodyOf (options : GenerateOptions) :
    Option Entries → Except Error (Option (String × List String))
  | none => .ok none
  | some [] => .ok none
  | some entries => do return some (← shownType options (← bodySchema entries))

def responseOf (options : GenerateOptions) (responses : Entries) :
    Except Error (Option (String × List String)) := do
  match ← responseSchema responses with
  | .null => return none
  | schema => some <$> shownType options schema

def ofOperation (options : GenerateOptions) (url : UrlNames) (queryName : String)
    (operation : Operation) : Except Error ShownSchemas := do
  let query ← queryOf options url queryName operation.parameters
  let body ← bodyOf options operation.requestBody
  let response ← responseOf options operation.responses
  return { query, body, response }

def refs (shown : ShownSchemas) : List String :=
  ((shown.query.map (·.2)).getD [] ++ (shown.body.map (·.2)).getD [] ++
    (shown.response.map (·.2)).getD []).eraseDups

/-- The type of the body; anything if nothing is left of it. -/
def bodyType (shown : ShownSchemas) : Option String :=
  shown.body.map fun body => if body.1 == "" then "any" else body.1

def responseType (shown : ShownSchemas) : Option String := given (shown.response.map (·.1))

def typeNames (shown : ShownSchemas) : List String :=
  (modelNames (shown.bodyType.getD "") ++ modelNames (shown.responseType.getD "")).eraseDups

end ShownSchemas

def modelsFor (options : GenerateOptions) (directory : String) (refs : List String)
    (schemas : Schemas) : Noted (List Model) := do
  let context := { mapping := options.mapping, schemas, ignores := options.ignores }
  let models ← reachableModels context refs
  return models.map fun model => { model with fileDir := directory }

def sourceOf (options : GenerateOptions) (context : FunctionContext) : Noted String :=
  if options.onlyModel then pure "" else context.text options.mapping options.hook

def generateApi (options : GenerateOptions) (operation : Operation) : Noted Api := do
  let url := UrlNames.parse operation.path
  let funcName := resolveFuncName operation url options.funcName
  let queryType := upperFirst url.fileName ++ upperFirst funcName ++ "Query"
  let shown ← liftExcept (ShownSchemas.ofOperation options url queryType operation)
  let context : FunctionContext := {
    operation := some operation
    name := funcName
    url := operation.path
    method := operation.method
    comment := (given operation.summary).or operation.description
    pathParams := pathParamsOf url operation.parameters
    queryType := shown.query.map fun _ => queryType
    bodyType := shown.bodyType
    responseType := shown.responseType }
  let sourceCode ← sourceOf options context
  return {
    sourceCode
    funcName
    fileName := url.fileName
    fileDir := url.dirName
    filePath := Path.join url.dirName (url.fileName ++ ".ts")
    method := operation.method
    url := operation.path
    typeNames := shown.typeNames
    queryModel := shown.query.map (·.1)
    refs := shown.refs
    models := modelsFor options url.dirName shown.refs }

/-- The functions of operations, those on paths to be left out apart. A given function name counts
for a single operation. -/
def generateApis (options : GenerateOptions) (operations : List Operation) : Noted (List Api) :=
  let options := if operations.length ≤ 1 then options else { options with funcName := none }
  (operations.filter fun operation => isAllowed options.ignores operation.path).mapM
    (generateApi options)

end TypedClient

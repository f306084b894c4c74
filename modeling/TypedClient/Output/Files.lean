import TypedClient.Api.Generate
import TypedClient.Import.Merge
import TypedClient.Import.Printer
import TypedClient.Import.Reader
import TypedClient.Interface.Index
import TypedClient.Output.Paths
import TypedClient.Workspace

/-!
Writing generated code. A file of functions keeps what stands in it and takes each operation once;
the index of a directory of models keeps the models listed in it.
-/

namespace TypedClient

structure WriteOptions where
  imports : List Value := []
  asGlobal : Bool := false

def isBreak (c : Char) : Bool := c == '\n'

def trimBreaks (text : List Char) : List Char := Text.trimWhere isBreak text

def extendSource (content : String) (incoming : List ImportEntry) (code : String) : String :=
  let source := splitSource content
  let merged := mergeImports source.imports incoming
  let body := trimBreaks (['\n'].intercalate source.others)
  let parts := (if merged.isEmpty then [] else [importsText merged]) ++
    (if body.isEmpty then [] else [String.ofList body]) ++
    [String.ofList (trimBreaks code.toList)]
  "\n\n".intercalate parts ++ "\n"

def configuredImports (setting : Value) : Except Error (List ImportEntry) :=
  if !setting.isTrue then .ok []
  else do return (splitSource (← setting.toText)).imports

def typeImport (path : String) (names : List String) : Import :=
  { path, names, onlyType := true }

def modelImports (directory : Place) (api : Api) (apiDir modelDir : String)
    (options : WriteOptions) : Except Error (List Import) :=
  if api.typeNames.isEmpty || modelDir == "" || options.asGlobal then .ok []
  else do return [typeImport (← Path.importSpecifier directory apiDir modelDir) api.typeNames]

def queryImports (directory : Place) (api : Api) (apiDir queryDir : String) :
    Except Error (List Import) :=
  match api.queryModel with
  | none => .ok []
  | some model => do
    let queryDir := if queryDir == "" then Path.join apiDir "query" else queryDir
    let path ← Path.importSpecifier directory apiDir (Path.join queryDir model.fileName)
    return [{ path, defaultName := some model.typeName, onlyType := true }]

def ownImports (directory : Place) (api : Api) (path modelDir queryDir : String)
    (options : WriteOptions) : Except Error (List Import) := do
  let models ← modelImports directory api (Path.parent path) modelDir options
  let query ← queryImports directory api (Path.parent path) queryDir
  return models ++ query

def apiImports (directory : Place) (api : Api) (path modelDir queryDir : String)
    (options : WriteOptions) : Except Error (List ImportEntry) := do
  let configured ← options.imports.mapM configuredImports
  let own ← ownImports directory api path modelDir queryDir options
  return configured.flatten ++ own.map .item

/-- Adds a function to its file, unless it has no text or its mark is there already. -/
def writeApiFile (api : Api) (path modelDir queryDir : String) (options : WriteOptions) :
    Work Bool := do
  if api.sourceCode == "" then return false
  let content ← Work.fileText path
  if containsText api.mark content then return false
  let directory := (← getThe Workspace).directory
  let imports ← liftExcept (apiImports directory api path modelDir queryDir options)
  Work.saveFile path (extendSource content imports api.sourceCode)
  return true

def writeQueryFile (model : Model) (queryDir modelDir : String) (asGlobal : Bool) :
    Work String := do
  let directory := (← getThe Workspace).directory
  let imports ← if model.typeNames.isEmpty || modelDir == "" || asGlobal then pure "" else do
    let path ← liftExcept (Path.importSpecifier directory queryDir modelDir)
    pure ((typeImport path model.typeNames).text ++ "\n\n")
  let path := Path.join queryDir (model.fileName ++ ".ts")
  Work.saveFile path (imports ++ model.sourceCode)
  return path

def listedModels (index : String) : List Import :=
  ((splitSource index).imports.filterMap ImportEntry.item?).filterMap fun item =>
    if isGiven item.defaultName then
      some { path := item.path, defaultName := some (Path.name item.path) }
    else none

def modelPath (modelDir : String) (model : Model) : String :=
  Path.join modelDir (model.fileName ++ ".ts")

def writeModelFiles (models : List Model) (modelDir : String) (asGlobal : Bool) :
    Work (List String) := do
  models.forM fun model => Work.saveFile (modelPath modelDir model) model.sourceCode
  let indexPath := Path.join modelDir "index.ts"
  let listed := listedModels (← Work.fileText indexPath)
  let directory := (← getThe Workspace).directory
  let added ← models.mapM fun model => do
    let path ← liftExcept (Path.importSpecifier directory modelDir (modelPath modelDir model))
    return { path, defaultName := some model.fileName : Import }
  Work.saveFile indexPath (indexText asGlobal (listed ++ added))
  return models.map (modelPath modelDir)

structure WriteResult where
  functions : Nat := 0
  modelFiles : List String := []
  deriving DecidableEq, Repr

def writeApi (schemas : Schemas) (target : OutputTarget) (options : WriteOptions)
    (result : WriteResult) (api : Api) : Work WriteResult := do
  let paths := target.paths api.filePath
  let written ← writeApiFile api paths.apiFile paths.modelDir paths.queryDir options
  if written then Work.report paths.apiFile
  match api.queryModel with
  | some model =>
    Work.report (← writeQueryFile model paths.queryDir paths.modelDir options.asGlobal)
  | none => pure ()
  let functions := if written then result.functions + 1 else result.functions
  let models ← Work.ofNoted (api.models schemas)
  if models.isEmpty then return { result with functions }
  let files ← writeModelFiles models paths.modelDir options.asGlobal
  files.forM Work.report
  return { functions, modelFiles := (result.modelFiles ++ files).eraseDups }

def writeAll (apis : List Api) (schemas : Schemas) (target : OutputTarget)
    (options : WriteOptions) : Work WriteResult :=
  apis.foldlM (writeApi schemas target options) {}

end TypedClient

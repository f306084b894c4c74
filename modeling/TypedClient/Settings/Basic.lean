import TypedClient.Ignore
import TypedClient.Output.Paths
import TypedClient.Schema.Basic

namespace TypedClient

inductive DocumentSource
  | program (document : Value)
  | place (value : Value)
  deriving Inhabited

inductive OutputSetting
  | single (path : String)
  | pair (functions : String) (models : Option String)
  | other (value : Value)
  deriving Repr

structure Settings where
  source : DocumentSource := .place .null
  output : OutputSetting := .single "src/api"
  cacheFile : Value := .null
  mapping : TypeMapping := []
  hookEntry : Value := .null
  onlyModel : Bool := false
  globalModel : Bool := false
  imports : List Value := []
  ignores : List Ignore := []
  directory : String := "."

def settingsFile : String := "unoapi.toml"

namespace OutputSetting

/-- A list names one path or two; other values only count once the output is needed. -/
def ofValue (path : String) : Value → Except Error OutputSetting
  | .text s => .ok (.single s)
  | .list [functions] => .ok (.pair functions.display none)
  | .list [functions, models] => .ok (.pair functions.display (some models.display))
  | .list _ => .error (.settings path .outputShape)
  | value => .ok (.other value)

def toValue : OutputSetting → Value
  | single path => .text path
  | pair functions models => .texts (functions :: models.toList)
  | other value => value

def target : OutputSetting → Except Error OutputTarget
  | single path => .ok ⟨path, none⟩
  | pair functions models => .ok ⟨functions, models⟩
  | other (.object _) => .error .missingKey
  | other _ => .error .notAPath

end OutputSetting

def putMapping (mapping : TypeMapping) (pair : String × String) : TypeMapping :=
  if mapping.any (·.1 == pair.1) then
    mapping.map fun entry => if entry.1 == pair.1 then (entry.1, pair.2) else entry
  else mapping ++ [pair]

def mappingPair (path : String) : Value → Except Error (String × String)
  | .list [old, new] => .ok (old.display, new.display)
  | pair => .error (.settings path (.mappingPair pair))

def readMapping (path : String) (value : Value) : Except Error TypeMapping :=
  if !value.isTrue then .ok []
  else
    match value with
    | .object entries =>
      .ok ((entries.map fun entry => (entry.1.display, entry.2.display)).foldl putMapping [])
    | .list items => do return (← items.mapM (mappingPair path)).foldl putMapping []
    | _ => .error (.settings path .mappingShape)

def readIgnore (text : String) : Except Error Ignore :=
  if 2 < text.length && Path.endsWith "/" text && Path.isAbsolute text then
    let source := String.ofList ((text.toList.drop 1).take (text.length - 2))
    match Pattern.read source with
    | .ok meaning => .ok (.pattern source meaning)
    | .error fault => .error (.invalidPattern fault)
  else .ok (.name text)

def Ignore.setting : Ignore → String
  | name text => text
  | pattern source _ => "/" ++ source ++ "/"

namespace Settings

/-- A record of settings. The path serves errors, the directory is where relative paths start. -/
def ofEntries (directory path : String) (entries : Entries) : Except Error Settings := do
  let output := Entries.field entries "output"
  let output ← if output.isTrue then OutputSetting.ofValue path output else pure (.single "src/api")
  let imports := Entries.field entries "imports"
  let input := Entries.field entries "input"
  let mapping ← readMapping path (Entries.field entries "typeMapping")
  let imports ← match imports with
    | .text s => pure (if s == "" then [] else [imports])
    | _ => imports.givenElements
  let ignores ← (← (Entries.field entries "ignores").givenElements).mapM fun item =>
    readIgnore item.display
  return {
    source := .place (if input.isTrue then input else Entries.field entries "openapiUrl")
    output
    cacheFile := Entries.field entries "cacheFile"
    mapping
    hookEntry := Entries.field entries "funcTpl"
    onlyModel := (Entries.field entries "onlyModel").isTrue
    globalModel := (Entries.field entries "asGlobalModel").isTrue
    imports
    ignores
    directory }

def isBlankSetting : Value → Bool
  | .null => true
  | .list [] => true
  | .object [] => true
  | _ => false

def toEntries (settings : Settings) : Entries :=
  let source := match settings.source with
    | .program _ => Value.null
    | .place value => value
  [(Scalar.text "input", source),
    (.text "output", settings.output.toValue),
    (.text "cacheFile", settings.cacheFile),
    (.text "typeMapping", .record (settings.mapping.map fun pair => (pair.1, .text pair.2))),
    (.text "funcTpl", settings.hookEntry),
    (.text "onlyModel", .bool settings.onlyModel),
    (.text "asGlobalModel", .bool settings.globalModel),
    (.text "imports", .list settings.imports),
    (.text "ignores", .texts (settings.ignores.map Ignore.setting))].filter fun entry =>
      !isBlankSetting entry.2

def cachePath (settings : Settings) : Except Error String :=
  if settings.cacheFile.isTrue then
    match settings.cacheFile with
    | .text path => .ok (Path.join settings.directory path)
    | _ => .error .notAPath
  else do
    let functions := (← settings.output.target).functions
    let folder := if Path.endsWith ".ts" functions then Path.parent functions else functions
    return Path.join (Path.join settings.directory folder) ".openapi-cache.json"

end Settings

structure SettingsChange where
  source : Option String := none
  output : Option String := none
  onlyModel : Bool := false
  globalModel : Bool := false
  deriving DecidableEq, Repr

def Settings.change (settings : Settings) (change : SettingsChange) : Settings :=
  { settings with
    source := match change.source.filter (· != "") with
      | some place => .place (.text place)
      | none => settings.source
    output := match change.output.filter (· != "") with
      | some path => .single path
      | none => settings.output
    onlyModel := change.onlyModel || settings.onlyModel
    globalModel := change.globalModel || settings.globalModel }

end TypedClient

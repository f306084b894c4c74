import TypedClient.Json.Reader
import TypedClient.Json.Writer
import TypedClient.Settings.Basic
import TypedClient.Toml.Reader
import TypedClient.Toml.Writer
import TypedClient.Workspace

namespace TypedClient

def packageFile : String := "package.json"

def packageField : String := "unoapi"

inductive SettingsForm
  | toml
  | package
  deriving DecidableEq, Repr

def SettingsForm.ofText (text : String) : SettingsForm :=
  if text == "package" then package else toml

namespace Work

def currentPath : Work String := return "/" ++ "/".intercalate (← getThe Workspace).directory

def absolutePath (path : String) : Work String :=
  return "/" ++ "/".intercalate (Path.absolute (← getThe Workspace).directory path)

end Work

def readPackage (path : String) : Work Entries := do
  let value : Option Value := match ← Work.fileAt? path with
    | some (_, .text s) => Json.read s
    | _ => none
  match value with
  | none => throw (.settings path .packageUnreadable)
  | some (.object entries) => return entries
  | some _ => throw (.settings path .packageShape)

def Toml.Fault.error (path : String) : Toml.Fault → Error
  | .message text => .settings path (.unreadable (some text))
  | .beyond => .beyondEnd
  | .noTable => .notACollection
  | .noList => .notAList
  | .outOfRange => .unreadableScalar .outOfRange

def settingsFromFile? (path : String) : Work (Option Settings) := do
  if !(← Work.exists? path) then return none
  if !(← Work.isFile path) then throw (.settings path (.unreadable none))
  let entries ← liftExcept ((Toml.read (← Work.fileText path)).mapError (Toml.Fault.error path))
  let directory := Path.parent (← Work.absolutePath path)
  return some (← liftExcept (Settings.ofEntries directory path entries))

def settingsFromPackage? (directory : String) : Work (Option Settings) := do
  let path := Path.join directory packageFile
  if !(← Work.isFile path) then return none
  match Entries.field (← readPackage path) packageField with
  | .object (first :: rest) =>
    return some (← liftExcept (Settings.ofEntries directory path (first :: rest)))
  | _ => return none

def loadSettings (directory : String) : Work Settings := do
  match ← settingsFromPackage? directory with
  | some settings => return settings
  | none =>
    match ← settingsFromFile? (Path.join directory settingsFile) with
    | some settings => return settings
    | none => return { directory }

def hasSettings (form : SettingsForm) (directory : String) : Work Bool := do
  match form with
  | .toml => Work.isFile (Path.join directory settingsFile)
  | .package =>
    let path := Path.join directory packageFile
    if !(← Work.isFile path) then return false
    return (Entries.field (← readPackage path) packageField).isTrue

/-- Writes settings into a file, which is left empty if they have no text. -/
def saveSettings (settings : Settings) (path : String) : Work Unit := do
  match Toml.write settings.toEntries with
  | .ok text => Work.replaceFile .place path text
  | .error fault =>
    Work.replaceFile .place path ""
    throw (fault.error path)

def createSettings (source : Option String) (form : SettingsForm) (directory : String) :
    Work String := do
  let settings : Settings :=
    { source := .place ((source.map Value.text).getD .null), directory }
  match form with
  | .toml =>
    let path := Path.join directory settingsFile
    saveSettings settings path
    return path
  | .package =>
    let path := Path.join directory packageFile
    let entries ← if ← Work.isFile path then readPackage path else pure []
    let entries := Entries.insert entries (.text packageField) (.object settings.toEntries)
    Work.replaceFile .place path (Json.pretty 0 (.object entries) ++ "\n")
    return path

end TypedClient

import TypedClient.Document
import TypedClient.Operation.Search
import TypedClient.Output.Files
import TypedClient.Settings.Hook

namespace TypedClient

structure Generator where
  settings : Settings
  document : Option Value := none

/-- Work on a generator, which is part of the state: what the work has changed in it by the time
that it fails stays changed. -/
abbrev Generating := ExceptT Error (StateM (Generator × Workspace))

def Generating.ofWork {α : Type} (action : Work α) : Generating α :=
  ExceptT.mk fun (generator, before) =>
    let (result, after) := (ExceptT.run action).run before
    (result, generator, after)

namespace Generator

def cacheInUse (generator : Generator) (refresh : Bool) : Work (Option String) :=
  if refresh then pure none else do
    let path ← liftExcept generator.settings.cachePath
    return if ← Work.isFile path then some path else none

def documentFrom (generator : Generator) : Option String → Work Value
  | some path => readDocument path
  | none => updateDocument generator.settings

def renewDocument (refresh : Bool) : Generating Value := do
  let (generator, _) ← get
  let document ← .ofWork (generator.cacheInUse refresh >>= generator.documentFrom)
  -- only now: a load that fails leaves the document that was at hand
  modify fun (generator, workspace) => ({ generator with document := some document }, workspace)
  return document

def keepDocument (refresh : Bool) : Generating Value := do
  let (generator, _) ← get
  match generator.document, refresh with
  | some document, false => return document
  | _, _ => renewDocument refresh

def through {α : Type} (generator : Generator) (action : Generating α) : Work (α × Generator) :=
  ExceptT.mk fun before =>
    let (result, later, after) := (ExceptT.run action).run (generator, before)
    (result.map fun value => (value, later), after)

def load (generator : Generator) (refresh : Bool) : Work (Value × Generator) :=
  generator.through (keepDocument refresh)

def entries (generator : Generator) : Work (Entries × Generator) := do
  match ← generator.load false with
  | (.object entries, generator) => return (entries, generator)
  | _ => throw .notAnObject

def search (generator : Generator) (keyword : Option String) :
    Work (List Operation × Generator) := do
  let (document, generator) ← generator.entries
  return (← liftExcept (searchOperations document keyword), generator)

def select (generator : Generator) (urls : List String) : Work (List Operation × Generator) := do
  let (document, generator) ← generator.entries
  return (← Work.ofNoted (chooseOperations document urls), generator)

def hook (generator : Generator) : Work (Option Hook) := do
  if !generator.settings.hookEntry.isTrue then return none
  let entry ← liftExcept generator.settings.hookEntry.toText
  return some (← loadHook entry generator.settings.directory)

def generate (generator : Generator) (operations : List Operation) (funcName : Option String) :
    Work (List Api × Generator) := do
  let settings := generator.settings
  let hook ← generator.hook
  let (document, generator) ← generator.entries
  let schemas ← liftExcept (Schemas.ofDocument document)
  let apis ← Work.ofNoted (generateApis {
    funcName
    hook
    mapping := settings.mapping
    ignores := settings.ignores
    onlyModel := settings.onlyModel
    schemas } operations)
  return (apis, generator)

def write (generator : Generator) (apis : List Api) : Work WriteResult := do
  let settings := generator.settings
  let (document, _) ← generator.entries
  let schemas ← liftExcept (Schemas.ofDocument document)
  if apis.isEmpty then return {}
  let target := (← liftExcept settings.output.target).under settings.directory
  writeAll apis schemas target { imports := settings.imports, asGlobal := settings.globalModel }

def run (generator : Generator) (urls : List String) (funcName : Option String) :
    Work (WriteResult × Generator) := do
  let (operations, generator) ← if urls.isEmpty then generator.search none
    else generator.select urls
  let (apis, generator) ← generator.generate operations funcName
  return (← generator.write apis, generator)

end Generator

end TypedClient

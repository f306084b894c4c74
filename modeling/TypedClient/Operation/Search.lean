import TypedClient.Notice
import TypedClient.Operation.Basic
import TypedClient.Schema.Basic
import TypedClient.Text.Replace

namespace TypedClient

def httpMethods : List String :=
  ["get", "post", "put", "delete", "patch", "head", "options", "trace"]

def parameterKey (parameter : Entries) : Except Error (Scalar × Scalar) :=
  match Entries.field parameter "name", Entries.field parameter "in" with
  | .scalar name, .scalar place => .ok (name, place)
  | _, _ => .error .unsuitableKey

def sameParameter (a b : Scalar × Scalar) : Bool := a.1.same b.1 && a.2.same b.2

def putParameter (key : Scalar × Scalar) (parameter : Entries) :
    List ((Scalar × Scalar) × Entries) → List ((Scalar × Scalar) × Entries)
  | [] => [(key, parameter)]
  | (first, old) :: rest =>
    if sameParameter first key then (first, parameter) :: rest
    else (first, old) :: putParameter key parameter rest

/-- The later of two parameters with the same name and place counts. -/
def mergeParameters (parameters : List Value) : Except Error (List Value) := do
  let merged ← parameters.foldlM (fun merged parameter =>
    match parameter with
    | .object entries => do return putParameter (← parameterKey entries) entries merged
    | _ => .ok merged) []
  return merged.map fun entry => .object entry.2

def isTextKey (entry : Scalar × Value) : Bool :=
  match entry.1 with
  | .text _ => true
  | _ => false

def operationOf (path : Scalar) (method : String) (shared : Value) (own : Entries) :
    Except Error Operation := do
  let common ← shared.givenElements
  let special ← (Entries.field own "parameters").givenElements
  let merged ← mergeParameters (common ++ special)
  let data := Entries.insert own (.text "parameters") (.list merged)
  if !data.all isTextKey || Entries.has data "path" || Entries.has data "method" then
    throw .foreignKey
  Operation.ofEntries
    ((.text "path", .scalar path) :: (.text "method", .text (lowerText method)) :: data)

def operationsOfMethod (path : Scalar) (shared : Value) :
    Scalar × Value → Except Error (List Operation)
  | (.text method, .object own) =>
    if httpMethods.contains (lowerText method) then
      return [← operationOf path method shared own]
    else return []
  | (.text _, _) => return []
  | _ => throw .notAText

def operationsOfPath : Scalar × Value → Except Error (List Operation)
  | (path, .object item) => do
    return (← item.mapM (operationsOfMethod path (Entries.field item "parameters"))).flatten
  | _ => return []

def allOperations (document : Entries) : Except Error (List Operation) := do
  let paths := Entries.field document "paths"
  if !paths.isTrue then return []
  match paths with
  | .object entries => return (← entries.mapM operationsOfPath).flatten
  | _ => throw .notAnObject

def Operation.mentions (operation : Operation) (keyword : String) : Bool :=
  containsText keyword operation.path || operation.summary.any (containsText keyword) ||
    operation.description.any (containsText keyword) ||
    operation.tags.any (containsText keyword)

def searchOperations (document : Entries) (keyword : Option String) :
    Except Error (List Operation) := do
  let operations ← allOperations document
  match keyword with
  | none => return operations
  | some "" => return operations
  | some word => return operations.filter (·.mentions word)

structure OperationChoice where
  path : String
  method : Option String
  deriving DecidableEq, Repr

/-- Reads `/path` or `[GET] /path`. -/
def OperationChoice.parse (url : String) : OperationChoice :=
  match Text.words url.toList with
  | method :: path :: _ =>
    let isBracket (c : Char) : Bool := c == '[' || c == ']'
    let method := Text.lower (Text.trimWhere isBracket method)
    ⟨String.ofList path, if method.isEmpty then none else some (String.ofList method)⟩
  | _ => ⟨String.ofList (Text.trim url.toList), none⟩

def OperationChoice.admits (choice : OperationChoice) (operation : Operation) : Bool :=
  operation.path == choice.path && choice.method.all (operation.method == ·)

/-- The chosen operations, choice after choice; a choice without any leaves a notice. -/
def chooseOperations (document : Entries) (urls : List String) : Noted (List Operation) := do
  let operations ← liftExcept (allOperations document)
  let chosen ← urls.mapM fun url => do
    let admitted := operations.filter (OperationChoice.parse url).admits
    if admitted.isEmpty then notify (.noOperation url)
    return admitted
  return chosen.flatten

end TypedClient

import TypedClient.Schema.Flatten

-- the names of the cases serve the proofs that the recursion ends
set_option linter.unusedVariables false

namespace TypedClient

def resolveIn (remaining : Schemas) (key : String) : Except Error (Option (String × Value)) :=
  match found : remaining.find? key with
  | none => .ok none
  | some schema =>
    match schema.ref? with
    | some ref =>
      match ref.toText with
      | .ok target => resolveIn (remaining.without key) (schemaKey target)
      | .error e => .error e
    | none => .ok (some (key, schema))
termination_by remaining.length
decreasing_by exact Schemas.length_without_lt found

def resolve (schemas : Schemas) (ref : String) : Except Error (Option (String × Value)) :=
  resolveIn schemas (schemaKey ref)

/-- Whether a file name is one of a model: not empty, and not in lower case. -/
def isModelName (fileName : String) : Bool := !fileName.isEmpty && !startsLower fileName

/-- A schema with properties, under a key that names a model, has an interface of its own. -/
def isModel (schemas : Schemas) (key : String) (schema : Value) : Except Error Bool := do
  if isModelName (SchemaName.parse [] key).fileName then
    let flat ← flatten schemas schema
    return (flat.field "properties").isTrue
  else return false

end TypedClient

import TypedClient.Ignore
import TypedClient.Interface.Comment
import TypedClient.Interface.Generics
import TypedClient.Schema.PropertyType
import TypedClient.TypeExpr.Names
import TypedClient.Validation

-- the names of the cases serve the proofs that the recursion ends
set_option linter.unusedVariables false

namespace TypedClient

structure Code where
  text : String := ""
  refs : List String := []
  typeNames : List String := []
  deriving DecidableEq, Repr

def Code.append (a b : Code) : Code :=
  ⟨a.text ++ b.text, a.refs ++ b.refs, a.typeNames ++ b.typeNames⟩

structure FieldOption where
  name : String
  required : Bool := false
  schema : Value := .null
  description : Value := .null

namespace FieldOption

def check (entries : Entries) : Checked FieldOption :=
  (fun name required schema description =>
      ⟨name, required, schema, (description.map Value.text).getD .null⟩)
    <$> Check.required entries "name" Check.text
    <*> Check.optional entries "required" "required" false Check.bool
    <*> Check.optional entries "schema" "schema_" .null Check.any
    <*> Check.optional entries "description" "description" none (Check.nullable Check.text)

def ofEntries (entries : Entries) : Except Error FieldOption := (check entries).toExcept

end FieldOption

def fieldLine (indent name : String) (required : Bool) (type : String) : String :=
  let clean := sanitizeIdentifier name
  let key := if clean == "" then "'" ++ name ++ "'" else clean
  let line := indent ++ key ++ (if required then "" else "?") ++ ": " ++ type ++ ";"
  if key == name then line else line ++ " // WARN: original field name \"" ++ name ++ "\""

def inlineProperties? : Value → Option Entries
  | .object entries =>
    let type := Entries.field entries "type"
    if Entries.has entries "$ref" || !(type.isText "object" || type.isNull) ||
        ["allOf", "oneOf", "anyOf"].any (Entries.has entries) then none
    else
      match Entries.find? entries "properties" with
      | some (.object (first :: rest)) => some (first :: rest)
      | _ => none
  | _ => none

theorem sizeOf_inlineProperties? {schema : Value} {properties : Entries}
    (found : inlineProperties? schema = some properties) : sizeOf properties < sizeOf schema := by
  unfold inlineProperties? at found
  split at found
  · simp only at found
    split at found
    · simp at found
    · split at found
      · rename_i held
        have smaller := Entries.sizeOf_find? held
        simp at found smaller ⊢
        subst found
        simp
        omega
      · simp at found
  · simp at found

def arrayItems? (schema : Value) : Option Value :=
  match schema with
  | .object entries =>
    if (Entries.field entries "type").isText "array" then Entries.find? entries "items" else none
  | _ => none

theorem sizeOf_arrayItems? {schema items : Value} (found : arrayItems? schema = some items) :
    sizeOf items < sizeOf schema := by
  unfold arrayItems? at found
  split at found
  · split at found
    · have smaller := Entries.sizeOf_find? found
      simp
      omega
    · simp at found
  · simp at found

def isRequired (required : Value) (name : String) : Except Error Bool :=
  if !required.isTrue then .ok false
  else
    match required with
    | .list items => .ok (items.any (·.isText name))
    | .text s => .ok (containsText name s)
    | .object entries => .ok (Entries.has entries name)
    | .scalar _ => .error .notACollection

structure FieldContext extends TypeContext where
  ignores : List Ignore := []

def namedType (context : FieldContext) (generics : Generics) (schema : Value) :
    Except Error (Code × Generics) := do
  let typed ← typeOf context.toTypeContext context.schemas schema
  let type := typed.type.render
  let type :=
    if context.ignores.isEmpty then type
    else
      let stripped := stripIgnored context.ignores type
      if stripped == "" then "any" else stripped
  match generics.substitute type (!typed.refs.isEmpty) with
  | some (name, generics) => return (⟨name, typed.refs, []⟩, generics)
  | none => return (⟨type, typed.refs, modelNames type⟩, generics)

def fieldCode (indent : String) (required : Value) (key : Scalar) (schema : Value) (type : Code) :
    Except Error Code := do
  match key with
  | .text name =>
    let comment := docComment indent (← fieldTexts (schema.field "description") schema)
    let line := fieldLine indent name (← isRequired required name) type.text
    return { type with text := comment ++ line ++ "\n" }
  | _ => throw .unsuitableKey

mutual

def schemaCode (context : FieldContext) (indent : String) (generics : Generics) (schema : Value) :
    Except Error (Code × Generics) :=
  match own : inlineProperties? schema with
  | some properties => do
    let (body, generics) ← fieldsCode context (indent ++ "  ") (schema.field "required") generics
      properties
    return ({ body with text := "\x7b\n" ++ body.text ++ indent ++ "\x7d" }, generics)
  | none =>
    match listed : arrayItems? schema with
    | some items =>
      if (inlineProperties? items).isSome then do
        let (item, generics) ← schemaCode context indent generics items
        return ({ item with text := item.text ++ "[]" }, generics)
      else namedType context generics schema
    | none => namedType context generics schema
termination_by sizeOf schema
decreasing_by
  · exact sizeOf_inlineProperties? own
  · exact sizeOf_arrayItems? listed

def fieldsCode (context : FieldContext) (indent : String) (required : Value) (generics : Generics)
    (properties : Entries) : Except Error (Code × Generics) :=
  match properties with
  | [] => .ok ({}, generics)
  | (key, schema) :: rest => do
    let (type, generics) ← schemaCode context indent generics schema
    let first ← fieldCode indent required key schema type
    let (code, generics) ← fieldsCode context indent required generics rest
    return (first.append code, generics)
termination_by sizeOf properties

end

def parameterCode (context : FieldContext) (indent : String) (field : FieldOption) :
    Except Error Code := do
  let (type, _) ← schemaCode context indent {} field.schema
  let description := if field.description.isTrue then field.description
    else field.schema.field "description"
  let comment := docComment indent (← fieldTexts description field.schema)
  return { type with text := comment ++ fieldLine indent field.name field.required type.text }

def queryCode (context : FieldContext) (name : String) (fields : List FieldOption) :
    Except Error Code := do
  let parts ← fields.mapM (parameterCode context "  ")
  let body := String.join (parts.map fun part => part.text ++ "\n")
  return {
    text := "export default interface " ++ name ++ " \x7b\n" ++ body ++ "\x7d\n"
    refs := parts.flatMap (·.refs)
    typeNames := (parts.flatMap (·.typeNames)).eraseDups }

end TypedClient

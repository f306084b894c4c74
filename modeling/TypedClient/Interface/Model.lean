import TypedClient.Interface.Field
import TypedClient.Schema.Flatten

namespace TypedClient

structure ModelCode extends Code where
  typeName : String
  fileName : String
  key : String
  generics : List String
  deriving DecidableEq, Repr

def defaultImport (name path : String) : String := "import " ++ name ++ " from '" ++ path ++ "';\n"

def importedNames (fileName : String) (generics typeNames : List String) : List String :=
  (typeNames.filter fun name =>
    name != fileName && !generics.contains name && !startsLower name).eraseDups

def interfaceText (imported generics : List String) (name key : String) (description : Value)
    (fields : String) : String :=
  let imports := String.join (imported.map fun name => defaultImport name ("./" ++ name))
  let parameters := if generics.isEmpty then "" else "<" ++ ", ".intercalate generics ++ ">"
  imports ++ (if imported.isEmpty then "" else "\n") ++ docComment "" (givenText description) ++
    "export default interface " ++ name ++ parameters ++ " \x7b\n  // @UNOAPI[" ++ key ++ "]\n" ++
    fields ++ "\x7d\n"

/-- The fields that an interface declares; none if no properties are given. -/
def declaredFields (properties : Value) : Except Error Entries :=
  if !properties.isTrue then .ok []
  else
    match properties with
    | .object entries => .ok entries
    | _ => .error .notAnObject

def modelCode (context : FieldContext) (ref : String) (schema : Value) :
    Except Error ModelCode := do
  let key := schemaKey ref
  let name := SchemaName.parse context.mapping key
  let flat ← flatten context.schemas schema
  let entries ← declaredFields (flat.field "properties")
  let (body, generics) ← fieldsCode context "  " (flat.field "required")
    (.ofTypeName name.typeName) entries
  let imported := importedNames name.fileName generics.names body.typeNames
  return {
    text := interfaceText imported generics.names name.fileName key (flat.field "description")
      body.text
    refs := body.refs
    typeNames := imported
    typeName := name.typeName
    fileName := name.fileName
    key := key
    generics := generics.names }

end TypedClient

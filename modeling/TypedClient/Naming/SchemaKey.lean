import TypedClient.Naming.Identifier
import TypedClient.TypeExpr.Basic

namespace TypedClient

abbrev TypeMapping := List (String × String)

def baseMapping : TypeMapping :=
  [("string", "string"), ("integer", "number"), ("int", "number"), ("long", "number"),
    ("double", "number"), ("float", "number"), ("number", "number"), ("boolean", "boolean"),
    ("object", "object")]

def TypeMapping.find? (mapping : TypeMapping) (name : String) : Option String :=
  (mapping.lookup name).or (baseMapping.lookup name)

structure SchemaName where
  typeName : String
  fileName : String
  deriving DecidableEq, Repr

def dropArguments : List Char → List Char
  | [] => []
  | c :: rest =>
    let tail := rest.dropWhile (· != '\n')
    if c == '<' && (tail == [] || tail == ['\n']) then tail else c :: dropArguments rest

def schemaKey (ref : String) : String := replaceText "#/components/schemas/" "" ref

def fileNameOf (typeName : String) : String :=
  replaceText "[]" "" (String.ofList (dropArguments typeName.toList))

/-- `Response«List«User»»` gives `Response<User[]>` in the file `Response`. -/
def SchemaName.parse (mapping : TypeMapping) (ref : String) : SchemaName :=
  let rename (name : String) : String := (mapping.find? name).getD name
  let typeName := (TypeNode.parse (schemaKey ref)).render rename false
  ⟨typeName, fileNameOf typeName⟩

end TypedClient

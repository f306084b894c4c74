import TypedClient.Path

namespace TypedClient

/-- Where functions go, and where models go if not beside them. -/
structure OutputTarget where
  functions : String
  models : Option String := none
  deriving DecidableEq, Repr

structure OutputPaths where
  apiFile : String
  modelDir : String
  queryDir : String
  deriving DecidableEq, Repr

def isGivenPath (path : Option String) : Bool := path.any (· != "")

namespace OutputTarget

def under (target : OutputTarget) (base : String) : OutputTarget :=
  if base == "" then target
  else
    { functions := Path.join base target.functions
      models := if isGivenPath target.models then target.models.map (Path.join base)
        else target.models }

/-- A target that names a source file takes all functions; a directory takes one file per path. -/
def paths (target : OutputTarget) (filePath : String) : OutputPaths :=
  let apiFile := if Path.endsWith ".ts" target.functions then target.functions
    else Path.join target.functions filePath
  let directory := Path.parent apiFile
  { apiFile
    modelDir := (target.models.filter (· != "")).getD (Path.join directory "model")
    queryDir := Path.join directory "query" }

end OutputTarget

end TypedClient

import TypedClient.Import.Basic

namespace TypedClient

def Import.text (statement : Import) : String :=
  let keyword := if statement.onlyType then "import type " else "import "
  let source := " from '" ++ statement.path ++ "';"
  let names := statement.names.eraseDups
  let named := "\x7b " ++ ", ".intercalate names ++ " \x7d"
  let given (name : Option String) : Option String := name.filter (· != "")
  match names, given statement.asName, given statement.defaultName with
  | _ :: _, _, some default =>
    if statement.onlyType then
      "import type " ++ default ++ source ++ "\nimport type " ++ named ++ source
    else keyword ++ default ++ ", " ++ named ++ source
  | _ :: _, _, none => keyword ++ named ++ source
  | [], some space, _ => keyword ++ "* as " ++ space ++ source
  | [], none, some default => keyword ++ default ++ source
  | [], none, none => "import '" ++ statement.path ++ "';"

def ImportEntry.text : ImportEntry → String
  | item statement => statement.text
  | verbatim text => text

def importsText (entries : List ImportEntry) : String :=
  "\n".intercalate (entries.map ImportEntry.text)

end TypedClient

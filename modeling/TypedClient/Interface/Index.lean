import TypedClient.Import.Basic
import TypedClient.Interface.Model

namespace TypedClient

def indexEntries (imports : List Import) : List (String × String) :=
  (imports.filterMap fun item =>
    match item.defaultName with
    | some name => if name == "" then none else some (name, item.path)
    | none => none).eraseDupsBy fun a b => a.1 == b.1

def indexText (asGlobal : Bool) (imports : List Import) : String :=
  let entries := indexEntries imports
  if entries.isEmpty then ""
  else if asGlobal then
    String.join (entries.map fun (name, path) => defaultImport ("_" ++ name) path) ++
      "\ndeclare global \x7b\n" ++
      String.join (entries.map fun (name, _) => "  type " ++ name ++ " = _" ++ name ++ ";\n") ++
      "\x7d\n"
  else
    String.join (entries.map fun (name, path) => defaultImport name path) ++ "\nexport \x7b\n" ++
      String.join (entries.map fun (name, _) => "  " ++ name ++ ",\n") ++ "\x7d\n"

end TypedClient

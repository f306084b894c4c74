import TypedClient.Import.Basic

namespace TypedClient

def isGiven (name : Option String) : Bool := name.any (· != "")

def Import.merges (a b : Import) : Bool :=
  if a.path != b.path || a.onlyType != b.onlyType then false
  else if isGiven a.asName || isGiven b.asName then a.asName == b.asName
  else if isGiven a.defaultName && isGiven b.defaultName then a.defaultName == b.defaultName
  else true

def Import.merge (a b : Import) : Import :=
  { a with
    names := a.names ++ b.names
    defaultName := if isGiven a.defaultName then a.defaultName else b.defaultName }

/-- Merges a statement into the first that it merges with, or puts it at the end. -/
def addImport (statement : Import) : List ImportEntry → List ImportEntry
  | [] => [.item statement]
  | .item current :: rest =>
    if current.merges statement then .item (current.merge statement) :: rest
    else .item current :: addImport statement rest
  | .verbatim text :: rest => .verbatim text :: addImport statement rest

def addEntry (entries : List ImportEntry) : ImportEntry → List ImportEntry
  | .item statement => addImport statement entries
  | .verbatim text =>
    if entries.contains (.verbatim text) then entries else entries ++ [.verbatim text]

/-- The first entries keep their order, and what cannot be merged into them follows. -/
def mergeImports (existing incoming : List ImportEntry) : List ImportEntry :=
  (existing ++ incoming).foldl addEntry []

end TypedClient

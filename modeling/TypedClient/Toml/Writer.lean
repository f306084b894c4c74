import TypedClient.Toml.Text
import TypedClient.Value.Display

/-!
Settings written as TOML. Of an object the pairs come first, then the lists of tables; the tables in
it follow with names of their own, the outer ones before the inner ones.
-/

namespace TypedClient.Toml

/-! Texts and keys -/

def keepsMark (text : List Char) : Bool :=
  let count := trailingBackslashes text
  count == 0 || min count (text.length - 1) % 2 == 1

def joinCodes : List Char → List (List Char) → List Char
  | text, [] => text
  | text, next :: rest =>
    let text := Text.replaceAll ['\\', '\\'] ['\\'] text
    joinCodes (text ++ (if keepsMark text then ['x'] else ['u', '0', '0']) ++ next) rest

def writeText (s : String) : Except Fault String := do
  let body ← match allPieces ['\\', 'x'] (s.toList.flatMap (Text.quotedChar '"')) with
    | [[], _] => throw .beyond
    | [] :: [] :: _ => throw .beyond
    | [] :: first :: rest => pure (joinCodes first rest)
    | first :: rest => pure (joinCodes first rest)
    | [] => pure []
  return String.ofList ('"' :: body ++ ['"'])

def isBareChar (c : Char) : Bool := c.isAlphanum || c == '_' || c == '-'

/-- Whether a key needs no quotes; a line break at its end does not count. -/
def isBareKey (key : List Char) : Bool :=
  let body := if key.getLast? == some '\n' then key.dropLast else key
  !body.isEmpty && body.all isBareChar

def writeKey (key : String) : Except Fault String :=
  if isBareKey key.toList then .ok key else writeText key

/-! Values -/

def writeScalar : Scalar → Except Fault String
  | .bool b => .ok (if b then "true" else "false")
  | .int n => .ok (toString n)
  | .float x => .ok (replaceText "e-0" "e-" (x.toText "inf" "nan"))
  | .foreign value => .ok value.shown
  | other => writeText other.display

mutual

def writeValue : Value → Except Fault String
  | .scalar s => writeScalar s
  | .list items => do return "[" ++ (← writeItems items) ++ "]"
  | .object entries => do
    let keys ← entries.mapM fun entry => writeScalar entry.1
    return "[" ++ String.join (keys.map fun key => " " ++ key ++ ",") ++ "]"
termination_by structural value => value

def writeItems : List Value → Except Fault String
  | [] => .ok ""
  | item :: rest => do return " " ++ (← writeValue item) ++ "," ++ (← writeItems rest)
termination_by structural items => items

end

/-! Tables -/

/-- A table: its name, the text of what it holds itself, and whether it holds further tables. -/
structure Table where
  name : String
  text : Except Fault String
  holdsTables : Bool

def Table.header (table : Table) : String := "[" ++ table.name ++ "]\n"

def joinLevels : List (List Table) → List (List Table) → List (List Table)
  | [], more => more
  | levels, [] => levels
  | level :: levels, other :: more => (level ++ other) :: joinLevels levels more

def innerName (name : String) (key : Scalar) : String :=
  let key := match writeKey key.display with
    | .ok key => key
    | .error _ => ""
  if name == "" then key else name ++ "." ++ key

def addInner (text : String) (table : Table) : Except Fault String := do
  let own ← table.text
  return if own == "" then text else text ++ table.header ++ own

structure Body where
  pairs : String := ""
  lists : String := ""

def Body.text (body : Body) : String := body.pairs ++ body.lists

def Body.append (body more : Body) : Body :=
  ⟨body.pairs ++ more.pairs, body.lists ++ more.lists⟩

/-- The text of an item that is no table, in a list that holds one: only what is empty has any. -/
def writeOther : Value → Except Fault String
  | .list [] | .text "" => .ok "\n"
  | .list (item :: _) => do
    discard (writeKey item.display)
    throw .noTable
  | .text s => do
    discard (writeKey (String.ofList (s.toList.take 1)))
    throw .noTable
  | _ => .error .noTable

mutual

def writeBody (name : String) : List (Scalar × Value) → Except Fault Body
  | [] => .ok {}
  | entry :: rest => do return (← writeEntry name entry).append (← writeBody name rest)
termination_by structural entries => entries

def writeEntry (name : String) : Scalar × Value → Except Fault Body
  | (key, .scalar s) => do
    let word ← writeKey key.display
    if s == .null then return {}
    return { pairs := word ++ " = " ++ (← writeScalar s) ++ "\n" }
  | (key, .list items) => do
    let word ← writeKey key.display
    if items.any Value.isObject then return { lists := ← writeTables (innerName name key) items }
    else return { pairs := word ++ " = [" ++ (← writeItems items) ++ "]\n" }
  | (key, .object _) => do
    discard (writeKey key.display)
    return {}
termination_by structural entry => entry

def writeTables (name : String) : List Value → Except Fault String
  | [] => .ok ""
  | item :: rest => do
    return "[[" ++ name ++ "]]\n" ++ (← writeItem name item) ++ (← writeTables name rest)
termination_by structural items => items

def writeItem (name : String) : Value → Except Fault String
  | .object entries => do
    let body ← writeBody name entries
    let own := if body.pairs == "" then "\n" ++ body.lists else body.text ++ "\n"
    (innerTables name entries).flatten.foldlM addInner own
  | other => writeOther other
termination_by structural value => value

def innerTables (name : String) : List (Scalar × Value) → List (List Table)
  | [] => []
  | entry :: rest => joinLevels (entryTables name entry) (innerTables name rest)
termination_by structural entries => entries

def entryTables (name : String) : Scalar × Value → List (List Table)
  | (key, .object entries) =>
    let name := innerName name key
    let table : Table := {
      name
      text := (writeBody name entries).map Body.text
      holdsTables := entries.any fun entry => entry.2.isObject }
    [table] :: innerTables name entries
  | _ => []
termination_by structural entry => entry

end

def addTable (text : String) (table : Table) : Except Fault String := do
  let own ← table.text
  if own == "" && table.holdsTables then return text
  let isApart := text == "" || ['\n', '\n'].isPrefixOf text.toList.reverse
  return text ++ (if isApart then "" else "\n") ++ table.header ++ own

def write (entries : Entries) : Except Fault String := do
  let body ← writeBody "" entries
  (innerTables "" entries).flatten.foldlM addTable body.text

end TypedClient.Toml

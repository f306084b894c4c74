import TypedClient.Toml.Value
import TypedClient.Value.Display

namespace TypedClient.Toml

/-- A step from a value to a part of it: the value under a key, or the last item of a list. -/
inductive Step
  | key (name : String)
  | last
  deriving DecidableEq, Repr

def Step.part? : Step → Value → Option Value
  | key name, .object entries => Entries.find? entries name
  | last, .list items => items.getLast?
  | _, _ => none

def Step.put (part : Value) : Step → Value → Value
  | key name, .object entries => .object (Entries.insert entries (.text name) part)
  | last, .list items => .list (items.dropLast ++ [part])
  | _, value => value

def partAt? : List Step → Value → Option Value
  | [], value => some value
  | step :: way, value => (step.part? value).bind (partAt? way)

def changeAt (change : Value → Value) : List Step → Value → Value
  | [], value => change value
  | step :: way, value =>
    match step.part? value with
    | some part => step.put (changeAt change way part) value
    | none => value

structure Draft where
  root : Value := .object []
  /-- The way to the table that pairs belong to. -/
  way : List Step := []
  /-- The names of tables that are only known because something stands in them. -/
  implied : List String := []
  opened : Option OpenText := none

namespace Draft

def here (draft : Draft) : Value := (partAt? draft.way draft.root).getD .null

def put (draft : Draft) (value : Value) : Draft :=
  { draft with root := changeAt (fun _ => value) draft.way draft.root }

/-- Joins the pieces of a quoted name that holds points; blanks around the whole do not count. -/
def joinName (pieces : List Char) : List (List Char) → Except Fault (List Char × List (List Char))
  | [] =>
    let name := Text.trim pieces
    if name.length != 1 && name.getLast? == name.head? then .ok (inner name, [])
    else
      .error (.message ("Invalid group name '" ++ String.ofList name ++
        "' Something went wrong."))
  | next :: rest =>
    let name := Text.trim pieces
    if name.length != 1 && name.getLast? == name.head? then .ok (inner name, next :: rest)
    else joinName (pieces ++ '.' :: next) rest

def isGroupName (name : List Char) : Bool :=
  !name.isEmpty && name.all fun c => c.isAlphanum || c == '_' || c == '-'

def groupNames : Nat → List (List Char) → Except Fault (List String)
  | 0, _ => .error .beyond
  | _, [] => .ok []
  | fuel + 1, piece :: rest => do
    let name := Text.trim piece
    if name.head?.any Layout.isQuote then
      let (name, rest) ← joinName name rest
      return String.ofList name :: (← groupNames fuel rest)
    else if isGroupName name then return String.ofList name :: (← groupNames fuel rest)
    else
      throw (.message ("Invalid group name '" ++ String.ofList name ++ "'. Try quoting it."))

def headerNames (close : List Char) (text : List Char) : Except Fault (List String) := do
  let count := firstOutside close false (quotePieces text)
  let parts := pieces close count text
  if parts.length < count + 1 || !(Text.trim (parts.getLast?.getD [])).isEmpty then
    throw (.message "Key group not on a line by itself.")
  let groups := Text.splitWhere (· == '.') (close.intercalate parts.dropLast)
  groupNames (groups.length + 1) groups

def newTable (isLast ofList : Bool) : Value :=
  if isLast && ofList then .list [.object []] else .object []

def meetGroup (draft : Draft) (name : String) (isLast ofList : Bool) (value : Value) :
    Except Fault Draft :=
  if !isLast then .ok draft
  else if draft.implied.contains name then
    if ofList then .error (.message "An implicitly defined table can't be an array")
    else .ok { draft with implied := draft.implied.erase name }
  else if ofList then
    match value, draft.here with
    | .list items, .object entries =>
      .ok (draft.put (.object (Entries.insert entries (.text name)
        (.list (items ++ [.object []])))))
    | _, _ => .error .noList
  else
    .error (.message ("What? " ++ name ++ " already exists?" ++ draft.here.display))

def enterLast (draft : Draft) : Except Fault Draft :=
  match draft.here with
  | .list [] => .error .beyond
  | .list _ => .ok { draft with way := draft.way ++ [.last] }
  | .text "" => .error .beyond
  | _ => .error .noTable

def addGroup (draft : Draft) (name : String) (isLast ofList : Bool) : Except Fault Draft :=
  match draft.here with
  | .object entries =>
    .ok (draft.put (.object (Entries.insert entries (.text name) (newTable isLast ofList))))
  | _ => .error .noTable

def enterGroup (draft : Draft) (name : String) (isLast ofList : Bool) : Except Fault Draft := do
  let draft ← match draft.here with
    | .object entries =>
      match Entries.find? entries name with
      | some value => draft.meetGroup name isLast ofList value
      | none =>
        let implied := if isLast then draft.implied else draft.implied ++ [name]
        addGroup { draft with implied } name isLast ofList
    | _ => do
      let draft ← draft.enterLast
      match draft.here with
      | .object entries =>
        if Entries.has entries name then pure draft else draft.addGroup name isLast ofList
      | _ => throw .noTable
  let draft := { draft with way := draft.way ++ [.key name] }
  if !ofList then return draft
  match draft.here with
  | .object _ => return draft
  | .text text =>
    if text == "" then throw .beyond
    return draft
  | _ => draft.enterLast

def enterGroups (draft : Draft) (ofList : Bool) : List String → Except Fault Draft
  | [] => .ok draft
  | name :: rest => do
    if name == "" then throw (.message "Can't have a keygroup with an empty name")
    enterGroups (← draft.enterGroup name rest.isEmpty ofList) ofList rest

def readHeader (draft : Draft) : List Char → Except Fault Draft
  | [] => .error (.message "Opening key group bracket on line by itself.")
  | '[' :: text => do
    let names ← headerNames [']', ']'] text
    Draft.enterGroups { draft with way := [] } true names
  | text => do
    let names ← headerNames [']'] text
    Draft.enterGroups { draft with way := [] } false names

def closesText (text line : List Char) : Except Fault Bool :=
  match text, line with
  | [], _ => .error .beyond
  | '[' :: _, [] => .error .beyond
  | '[' :: _, line => .ok (line.getLast? == some ']')
  | c :: _, line => .ok (2 < line.length && line.reverse.take 3 == [c, c, c])

def readMore (draft : Draft) (opened : OpenText) (line : List Char) : Except Fault Draft := do
  let line := if opened.joined || !opened.text.contains '\n' then Text.trim line else line
  if line.isEmpty && opened.joined then return draft
  let text := opened.text ++ line
  if ← closesText text line then
    let (value, _) ← readValue true text (fuelFor text)
    match draft.here with
    | .object entries =>
      let table := Value.object (Entries.insert entries (.text opened.key) value)
      return Draft.put { draft with opened := none } table
    | _ => throw .noTable
  else return { draft with opened := some (openText opened.key text) }

def readStatement (draft : Draft) (line : List Char) : Except Fault Draft :=
  match line with
  | [] => .ok draft
  | '[' :: text => draft.readHeader text
  | '\x7b' :: _ =>
    if line.getLast? != some '\x7d' then
      .error (.message "Line breaks are not allowed in inlineobjects")
    else do return draft.put (← readTable draft.here line (fuelFor line))
  | _ =>
    if !line.contains '=' then .ok draft
    else do
      let (table, opened) ← readPair draft.here line (fuelFor line)
      return Draft.put { draft with opened } table

def readLine (draft : Draft) (line : List Char) : Except Fault Draft :=
  match draft.opened with
  | some opened => draft.readMore opened line
  | none => draft.readStatement (Text.trim line)

def readLines (draft : Draft) (position : Nat) : List (List Char) → Except Failure Draft
  | [] => .ok draft
  | line :: rest => do
    let draft ← (draft.readLine line).mapError (⟨·, position⟩)
    readLines draft (position + line.length + 1) rest

end Draft

def read (text : String) : Except Fault Entries :=
  let chars := text.toList
  let result : Except Failure Value := do
    return (← ({} : Draft).readLines 0 (← lines chars)).root
  match result with
  | .ok (.object entries) => .ok entries
  | .ok _ => .ok []
  | .error failure => .error (failure.placed chars)

end TypedClient.Toml

import TypedClient.Import.Basic
import TypedClient.Naming.Identifier
import TypedClient.Text.Lines

/-!
Reading import statements from source code. A statement may run over several lines; one whose form
is not known is kept as text, with its lines.
-/

namespace TypedClient

namespace ImportText

def isQuote (c : Char) : Bool := c == '\'' || c == '"'

def after? (start : String) (text : List Char) : Option (List Char) :=
  if start.toList.isPrefixOf text then some (text.drop start.toList.length) else none

def dropBlanks (text : List Char) : List Char := text.dropWhile Text.isBlank

def quotedPath? (text : List Char) : Option (List Char × List Char) :=
  match dropBlanks text with
  | c :: rest =>
    let path := rest.takeWhile (!isQuote ·)
    match rest.drop path.length with
    | _ :: tail => if isQuote c && !path.isEmpty then some (path, tail) else none
    | [] => none
  | [] => none

def isEnd (text : List Char) : Bool :=
  let rest := dropBlanks text
  rest == [] || rest == [';']

def source? (text : List Char) : Option String := do
  let (path, rest) ← quotedPath? (← after? "from" text)
  if isEnd rest then some (String.ofList path) else none

def name? (text : List Char) : Option (List Char × List Char) :=
  let name := text.takeWhile Naming.isFieldChar
  if name.isEmpty then none else some (name, text.drop name.length)

def splitNames (text : List Char) : List String :=
  ((Text.splitWhere (· == ',') text).map Text.trim).filterMap fun name =>
    if name.isEmpty then none else some (String.ofList name)

def braced? (text : List Char) : Option (List String × String) := do
  let inner ← after? "\x7b" text
  let names := inner.takeWhile (· != '\x7d')
  let rest ← after? "\x7d" (inner.drop names.length)
  return (splitNames names, ← source? (dropBlanks rest))

def named? (text : List Char) : Option Import :=
  match braced? text with
  | some (names, path) => some { path, names }
  | none => do
    let (default, rest) ← name? text
    let rest ← after? "," (dropBlanks rest)
    let (names, path) ← braced? (dropBlanks rest)
    return { path, names, defaultName := some (String.ofList default) }

def namespace? (text : List Char) : Option Import := do
  let (space, rest) ← name? (← after? "* as " text)
  return { path := ← source? (← after? " " rest), asName := some (String.ofList space) }

def default? (text : List Char) : Option Import := do
  let (name, rest) ← name? text
  return { path := ← source? (← after? " " rest), defaultName := some (String.ofList name) }

def typedOrNot (form : List Char → Option Import) (text : List Char) : Option Import :=
  match (after? "type " text).bind form with
  | some statement => some { statement with onlyType := true }
  | none => form text

def statement? (text : List Char) : Option Import := do
  let body ← after? "import " text
  match typedOrNot named? body, typedOrNot namespace? body with
  | some statement, _ => some statement
  | none, some statement => some statement
  | none, none =>
    (typedOrNot default? body).filter fun statement => statement.defaultName != some "type"

def holdsSource : Option Char → List Char → Bool
  | _, [] => false
  | previous, c :: rest =>
    (!previous.any Text.isWord && (((after? "from" (c :: rest)).bind quotedPath?).isSome)) ||
      holdsSource (some c) rest

def isSideEffect (text : List Char) : Bool :=
  (((after? "import" text).bind quotedPath?).map fun found => isEnd found.2).getD false

def isComplete (text : List Char) : Bool := holdsSource none text || isSideEffect text

def opens (line : List Char) : Bool :=
  match after? "import" line with
  | some (c :: _) => Text.isBlank c || c == '\x7b' || c == '*' || isQuote c
  | _ => false

end ImportText

def ImportEntry.parse (text : List Char) : ImportEntry :=
  match ImportText.statement? ([' '].intercalate (Text.words text)) with
  | some statement => .item statement
  | none => .verbatim (String.ofList text)

def ImportEntry.ofLines (lines : List (List Char)) : ImportEntry :=
  match ImportEntry.parse ([' '].intercalate lines) with
  | .item statement => .item statement
  | .verbatim _ => .verbatim (String.ofList (['\n'].intercalate lines))

structure SplitSource where
  imports : List ImportEntry := []
  others : List (List Char) := []
  deriving DecidableEq, Repr

/-- Splits lines; those of a statement that is not complete are `pending`, the last one first. -/
def splitLines : List (List Char) → List (List Char) → SplitSource
  | [], [] => {}
  | pending, [] => { imports := [.verbatim (String.ofList (['\n'].intercalate pending.reverse))] }
  | pending, line :: rest =>
    let stripped := Text.trim line
    if pending.isEmpty && !ImportText.opens stripped then
      let more := splitLines [] rest
      { more with others := line :: more.others }
    else
      let lines := (stripped :: pending).reverse
      if ImportText.isComplete ([' '].intercalate lines) then
        let more := splitLines [] rest
        { more with imports := ImportEntry.ofLines lines :: more.imports }
      else splitLines (stripped :: pending) rest

def splitSource (code : String) : SplitSource := splitLines [] (Text.lines code.toList)

end TypedClient

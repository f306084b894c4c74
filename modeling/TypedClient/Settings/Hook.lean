import TypedClient.Api.Function
import TypedClient.Json.Token
import TypedClient.Workspace

namespace TypedClient

abbrev HookFile := List (String × Option String)

namespace HookFile

def hexWidth : Char → Nat
  | 'x' => 2
  | 'u' => 4
  | 'U' => 8
  | _ => 0

/-- The text up to the closing quote, which ends the line; `left` digits of a code are to come. -/
def readText? (quote : Char) : Nat → Nat → List Char → Option (List Char)
  | _, _, [] => none
  | left + 1, code, c :: rest => do
    let code := code * 16 + (← Json.hexValue? c)
    if left == 0 then return Char.ofNat code :: (← readText? quote 0 0 rest)
    else readText? quote left code rest
  | 0, _, '\\' :: c :: rest =>
    if hexWidth c != 0 then readText? quote (hexWidth c) 0 rest
    else do
      let meant := match c with
        | 'n' => ['\n']
        | 't' => ['\t']
        | 'r' => ['\r']
        | '\\' => ['\\']
        | '\'' => ['\'']
        | '"' => ['"']
        | other => ['\\', other]
      return meant ++ (← readText? quote 0 0 rest)
  | 0, _, c :: rest =>
    if c == quote then (if rest.isEmpty then some [] else none)
    else do return c :: (← readText? quote 0 0 rest)

def returned? (line : List Char) : Option String :=
  let body := Text.trim line
  if "return ".toList.isPrefixOf body then
    match body.drop 7 with
    | quote :: rest =>
      if quote == '\'' || quote == '"' then (readText? quote 0 0 rest).map String.ofList else none
    | [] => none
  else none

/-- The definitions on the lines of a file; none if a line is no definition. -/
def ofLines? : List (List Char) → Option HookFile
  | [] => some []
  | line :: rest =>
    if line.all Text.isBlank then ofLines? rest
    else if "def ".toList.isPrefixOf line then
      match rest with
      | body :: more => do
        let name := (line.drop 4).takeWhile Text.isWord
        return (String.ofList name, some (← returned? body)) :: (← ofLines? more)
      | [] => none
    else
      let name := line.takeWhile Text.isWord
      if name.isEmpty || (Text.trim (line.drop name.length)).head? != some '=' then none
      else do return (String.ofList name, none) :: (← ofLines? rest)

/-- The function under a name; of several definitions the last counts. -/
def function? (file : HookFile) (name : String) : Option Hook :=
  (file.reverse.lookup name).join.map fun text _ => some (.text text)

end HookFile

def splitEntry (entry : String) : Except Error (String × String) :=
  let isColon (c : Char) : Bool := c == ':'
  let place := String.ofList (Text.beforeLast isColon entry.toList)
  let name := String.ofList (Text.afterLast isColon entry.toList)
  if place == "" || name == "" then .error (.settings entry .hookEntry) else .ok (place, name)

def moduleError (entry place : String) : Error :=
  if place.toList.head? == some '.' then .relativeModule
  else .settings entry (.hookModule (String.ofList (place.toList.takeWhile (· != '.'))))

def loadHook (entry directory : String) : Work Hook := do
  let (place, name) ← liftExcept (splitEntry entry)
  if !Path.endsWith ".py" place then throw (moduleError entry place)
  if (Path.join directory place).toList.contains '\x00' then throw (.place .zero)
  let file ← match ← Work.fileAt? (Path.join directory place) with
    | some (_, .text s) =>
      pure (HookFile.ofLines? (Text.splitWhere (· == '\n') (Text.unifyBreaks s.toList)))
    | _ => pure none
  match file with
  | none => throw (.settings entry (.unreadable none))
  | some file =>
    match file.function? name with
    | some hook => return hook
    | none => throw (.settings entry (.hookMissing name))

end TypedClient

import TypedClient.Number.Shortest
import TypedClient.Text.Quoted
import TypedClient.Value.Basic

namespace TypedClient.Json

def escapedChar (c : Char) : List Char :=
  if c == '"' || c == '\\' then ['\\', c]
  else if c == '\n' then ['\\', 'n']
  else if c == '\r' then ['\\', 'r']
  else if c == '\t' then ['\\', 't']
  else if c == '\x08' then ['\\', 'b']
  else if c == '\x0c' then ['\\', 'f']
  else if c.toNat < 32 then '\\' :: 'u' :: Text.hexCode 4 c.toNat
  else [c]

def writeText (s : String) : String :=
  String.ofList ('"' :: s.toList.flatMap escapedChar ++ ['"'])

def scalarText : Scalar → String
  | .null => "null"
  | .bool b => if b then "true" else "false"
  | .int n => toString n
  | .float x => x.toText "Infinity" "NaN"
  | .text s => s
  | .foreign value => value.shown

def writeScalar : Scalar → String
  | .text s => writeText s
  | other => scalarText other

def writeKey (key : Scalar) : String := writeText (scalarText key)

mutual

def write : Value → String
  | .scalar s => writeScalar s
  | .list items => "[" ++ ", ".intercalate (writeItems items) ++ "]"
  | .object entries => "\x7b" ++ ", ".intercalate (writeEntries entries) ++ "\x7d"
termination_by structural value => value

def writeItems : List Value → List String
  | [] => []
  | item :: rest => write item :: writeItems rest
termination_by structural items => items

def writeEntries : List (Scalar × Value) → List String
  | [] => []
  | entry :: rest => writeEntry entry :: writeEntries rest
termination_by structural entries => entries

def writeEntry : Scalar × Value → String
  | (key, value) => writeKey key ++ ": " ++ write value
termination_by structural entry => entry

end

def lineStart (depth : Nat) : String := "\n" ++ String.ofList (List.replicate (2 * depth) ' ')

def writeBlock (opening closing : String) (depth : Nat) (parts : List String) : String :=
  if parts.isEmpty then opening ++ closing
  else
    opening ++ lineStart (depth + 1) ++ ("," ++ lineStart (depth + 1)).intercalate parts ++
      lineStart depth ++ closing

mutual

def pretty : Nat → Value → String
  | _, .scalar s => writeScalar s
  | depth, .list items => writeBlock "[" "]" depth (prettyItems (depth + 1) items)
  | depth, .object entries => writeBlock "\x7b" "\x7d" depth (prettyEntries (depth + 1) entries)
termination_by structural _ value => value

def prettyItems : Nat → List Value → List String
  | _, [] => []
  | depth, item :: rest => pretty depth item :: prettyItems depth rest
termination_by structural _ items => items

def prettyEntries : Nat → List (Scalar × Value) → List String
  | _, [] => []
  | depth, entry :: rest => prettyEntry depth entry :: prettyEntries depth rest
termination_by structural _ entries => entries

def prettyEntry : Nat → Scalar × Value → String
  | depth, (key, value) => writeKey key ++ ": " ++ pretty depth value
termination_by structural _ entry => entry

end

end TypedClient.Json

import TypedClient.Number.Shortest
import TypedClient.Text.Quoted
import TypedClient.Value.Basic

namespace TypedClient

namespace Scalar

def display : Scalar → String
  | null => "None"
  | bool b => if b then "True" else "False"
  | int n => toString n
  | float x => x.toText "inf" "nan"
  | text s => s
  | foreign value => value.shown

def quoted : Scalar → String
  | text s => String.ofList (Text.quoted s.toList)
  | foreign value => value.quoted
  | other => other.display

end Scalar

namespace Value

mutual

def quoted : Value → String
  | .scalar s => s.quoted
  | .list items => "[" ++ ", ".intercalate (quotedItems items) ++ "]"
  | .object entries => "\x7b" ++ ", ".intercalate (quotedEntries entries) ++ "\x7d"
termination_by structural value => value

def quotedItems : List Value → List String
  | [] => []
  | item :: rest => quoted item :: quotedItems rest
termination_by structural items => items

def quotedEntries : List (Scalar × Value) → List String
  | [] => []
  | entry :: rest => quotedEntry entry :: quotedEntries rest
termination_by structural entries => entries

def quotedEntry : Scalar × Value → String
  | (key, value) => key.quoted ++ ": " ++ quoted value
termination_by structural entry => entry

end

def display : Value → String
  | .scalar s => s.display
  | other => other.quoted

end Value

end TypedClient

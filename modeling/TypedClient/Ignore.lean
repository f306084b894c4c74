import TypedClient.Naming.SchemaKey
import TypedClient.Pattern.Reader

namespace TypedClient

inductive Ignore
  | name (text : String)
  | pattern (source : String) (meaning : Pattern)
  deriving DecidableEq, Repr

def Ignore.name? : Ignore → Option String
  | name text => some text
  | pattern _ _ => none

def Ignore.hits (name : String) : Ignore → Bool
  | .name text => text == name
  | .pattern _ meaning => meaning.occursIn name

def isUrl (name : String) : Bool :=
  ["/", "http://", "https://"].any fun start => start.toList.isPrefixOf name.toList

/-- No entry hits the name; and unless it is a URL, no entry is the file name it decodes to. -/
def isAllowed (ignores : List Ignore) (name : String) : Bool :=
  ignores.isEmpty || name == "" ||
    !(ignores.any (Ignore.hits name) ||
      (!isUrl name &&
        (ignores.filterMap Ignore.name?).contains (SchemaName.parse [] name).fileName))

/-- Takes first arguments until a name is allowed; array marks of what is skipped add up. -/
def stripNode (ignores : List Ignore) (extraDepth : Nat) : TypeNode → Option TypeNode
  | ⟨name, args, depth⟩ =>
    if name == "" || isBaseType name || isAllowed ignores name then
      some ⟨name, args, depth + extraDepth⟩
    else
      match args with
      | [] => none
      | first :: _ => stripNode ignores (extraDepth + depth) first

/-- The type without the wrappers that are to be left out; empty if nothing is left. -/
def stripIgnored (ignores : List Ignore) (type : String) : String :=
  if type == "" || ignores.isEmpty || !isPlainType type then type
  else ((stripNode ignores 0 (TypeNode.parse type)).map TypeNode.toText).getD ""

end TypedClient

import TypedClient.Text.Case
import TypedClient.Text.Blank
import TypedClient.Text.Replace

namespace TypedClient

def baseTypes : List String := ["string", "number", "boolean", "object", "any", "unknown"]

def isBaseType (name : String) : Bool := baseTypes.contains name

def builtinTypes : List String :=
  ["Array", "Record", "Partial", "Promise", "Blob", "File", "Date", "null", "undefined", "void",
    "never"]

namespace Naming

def capitalize : List Char → List Char
  | [] => []
  | c :: rest => Text.upperForm c ++ rest

/-- A word character behind a hyphen or an underscore goes to upper case and takes its place. -/
def joinCamel : List Char → List Char
  | [] => []
  | [c] => [c]
  | c :: d :: rest =>
    if (c == '-' || c == '_') && Text.isWord d then Text.upperForm d ++ joinCamel rest
    else c :: joinCamel (d :: rest)

def isFieldChar (c : Char) : Bool := Text.isWord c || c == '$'

def isIdentifierStart (c : Char) : Bool := c.isAlpha || c == '_' || c == '$'

end Naming

def upperFirst (name : String) : String := String.ofList (Naming.capitalize name.toList)

def camelCase (name : String) : String := String.ofList (Naming.joinCamel name.toList)

def sanitizeIdentifier (name : String) : String :=
  String.ofList (name.toList.filter Naming.isFieldChar)

def isIdentifier (name : String) : Bool :=
  match name.toList with
  | [] => false
  | c :: rest =>
    Naming.isIdentifierStart c && rest.all fun c => Naming.isIdentifierStart c || c.isDigit

def endsWithAny (suffixes : List String) (text : List Char) : Bool :=
  suffixes.any fun suffix => suffix.toList.isSuffixOf text

def singularize (word : String) : String :=
  let text := word.toList
  let short (count : Nat) : List Char := text.take (text.length - count)
  if 3 < text.length && endsWithAny ["ies"] text then String.ofList (short 3 ++ ['y'])
  else if 3 < text.length && endsWithAny ["ses", "xes", "ches", "shes"] text then
    String.ofList (short 2)
  else if 1 < text.length && endsWithAny ["s"] text && !endsWithAny ["ss"] text then
    String.ofList (short 1)
  else word

def isSimilar : Option String → Option String → Bool
  | some a, some b => lowerText a == lowerText b
  | none, none => true
  | _, _ => false

def startsLower (name : String) : Bool := name.toList.head?.any Text.isLower

end TypedClient

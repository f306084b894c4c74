import TypedClient.Naming.Identifier
import TypedClient.TypeExpr.Basic

namespace TypedClient

def parameterNames : List String := ["T", "E", "U", "K", "V"]

/-- The arguments that may become parameters, and those that have, with their names. -/
structure Generics where
  arguments : List String := []
  assigned : List (String × String) := []
  deriving DecidableEq, Repr

namespace Generics

def ofTypeName (typeName : String) : Generics :=
  { arguments := (TypeNode.parse typeName).args.map TypeNode.toText }

def names (generics : Generics) : List String := generics.assigned.map (·.2)

/-- Splits off the array marks at the end, leaving at least one character in reverse. -/
def splitMarks : List Char → List Char × List Char
  | ']' :: '[' :: c :: rest =>
    let (body, marks) := splitMarks (c :: rest)
    (body, '[' :: ']' :: marks)
  | text => (text, [])

def argumentOf? (generics : Generics) (type : String) : Option (String × String) :=
  if generics.arguments.contains type then some (type, "")
  else
    let (body, marks) := splitMarks type.toList.reverse
    let base := String.ofList body.reverse
    if !body.isEmpty && !body.contains '\n' && generics.arguments.contains base then
      some (base, String.ofList marks)
    else none

def assign (generics : Generics) (argument : String) : Option (String × Generics) :=
  match generics.assigned.lookup argument with
  | some name => some (name, generics)
  | none =>
    match parameterNames[generics.assigned.length]? with
    | some name =>
      some (name, { generics with assigned := generics.assigned ++ [(argument, name)] })
    | none => none

/-- The type with its argument replaced. A base type is replaced only if it comes by reference. -/
def substitute (generics : Generics) (type : String) (byReference : Bool) :
    Option (String × Generics) :=
  match generics.argumentOf? type with
  | none => none
  | some (argument, marks) =>
    if isBaseType (replaceText "[]" "" argument) && !byReference then none
    else (generics.assign argument).map fun (name, generics) => (name ++ marks, generics)

end Generics

end TypedClient

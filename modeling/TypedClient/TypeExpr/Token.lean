import TypedClient.Text.Blank

namespace TypedClient.TypeExpr

inductive Token
  | opening
  | closing
  | comma
  | array
  | name (text : String)
  deriving DecidableEq, Repr, Inhabited

def Token.text : Token → String
  | opening => "<"
  | closing => ">"
  | comma => ","
  | array => "[]"
  | name text => text

def delimiter? : Char → Option Token
  | '<' => some .opening
  | '«' => some .opening
  | '>' => some .closing
  | '»' => some .closing
  | ',' => some .comma
  | _ => none

def nameToken (gathered : List Char) : List Token :=
  let name := Text.trim gathered.reverse
  if name.isEmpty then [] else [.name (String.ofList name)]

def tokensFrom : List Char → List Char → List Token
  | gathered, [] => nameToken gathered
  | gathered, '[' :: ']' :: rest => nameToken gathered ++ .array :: tokensFrom [] rest
  | gathered, c :: rest =>
    match delimiter? c with
    | some token => nameToken gathered ++ token :: tokensFrom [] rest
    | none => tokensFrom (c :: gathered) rest

def tokens (text : String) : List Token := tokensFrom [] text.toList

end TypedClient.TypeExpr

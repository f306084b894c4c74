import TypedClient.Error
import TypedClient.Text.Blank
import TypedClient.Text.Replace

namespace TypedClient.Path

def isSlash (c : Char) : Bool := c == '/'

def isAbsolute (path : String) : Bool := path.toList.head? == some '/'

def endsWith (ending path : String) : Bool := ending.toList.isSuffixOf path.toList

def join (first second : String) : String :=
  if isAbsolute second then second
  else if first == "" || endsWith "/" first then first ++ second
  else first ++ "/" ++ second

def parent (path : String) : String :=
  let head := (path.toList.reverse.dropWhile (!isSlash ·)).reverse
  String.ofList (if head.all isSlash then head else Text.dropTrailing isSlash head)

def name (path : String) : String := String.ofList (Text.afterLast isSlash path.toList)

def parts (path : String) : List String :=
  ((Text.splitWhere isSlash path.toList).filter (!·.isEmpty)).map String.ofList

def enter (place : List String) (part : String) : List String :=
  if part == "." then place else if part == ".." then place.dropLast else place ++ [part]

def absolute (directory : List String) (path : String) : List String :=
  (parts path).foldl enter (if isAbsolute path then [] else directory)

def dropShared : List String → List String → List String × List String
  | a :: as, b :: bs => if a == b then dropShared as bs else (a :: as, b :: bs)
  | as, bs => (as, bs)

def relative (source target : List String) : String :=
  let (up, down) := dropShared source target
  let steps := List.replicate up.length ".." ++ down
  if steps.isEmpty then "." else "/".intercalate steps

def importSpecifier (directory : List String) (source target : String) : Except Error String :=
  if target == "" then .error .emptyTarget
  else
    let way := relative (absolute directory source) (absolute directory target)
    let short := if endsWith ".ts" way then String.ofList (way.toList.take (way.length - 3))
      else way
    .ok (if short.toList.head? == some '.' then short else "./" ++ short)

end TypedClient.Path

import TypedClient.Naming.Identifier

namespace TypedClient

structure UrlNames where
  funcName : String
  fileName : String
  dirName : String
  pathParams : List String
  deriving DecidableEq, Repr

namespace Url

/-- What stands between the first brace and the next closing brace; at least one character, and
none of them a line feed. -/
def bracedFrom : List Char → Option (List Char)
  | [] => none
  | c :: rest =>
    let shortest (first : Char) (tail : List Char) : Option (List Char) :=
      let body := tail.takeWhile fun d => d != '\x7d' && d != '\n'
      match tail.drop body.length with
      | '\x7d' :: _ => some (first :: body)
      | _ => none
    match c, rest with
    | '\x7b', first :: tail =>
      if first == '\n' then bracedFrom rest
      else
        match shortest first tail with
        | some name => some name
        | none => bracedFrom rest
    | _, _ => bracedFrom rest

def colonName? : List Char → Option (List Char)
  | ':' :: c :: rest => if (c :: rest).contains '\n' then none else some (c :: rest)
  | _ => none

def parameter? (segment : List Char) : Option (List Char) :=
  match bracedFrom segment with
  | some name => some name
  | none => colonName? segment

def segments (url : List Char) : List (List Char) :=
  let path := Text.trimWhere (· == '/') (url.takeWhile (· != '?'))
  (Text.splitWhere (· == '/') path).filter (!·.isEmpty)

end Url

inductive Segment
  | name (text : String)
  | param (text : String)
  deriving DecidableEq, Repr

namespace Segment

def ofText (text : List Char) : Segment :=
  match Url.parameter? text with
  | some inner => param (String.ofList inner)
  | none => name (camelCase (String.ofList text))

def param? : Segment → Option String
  | param text => some text
  | name _ => none

def name? : Segment → Option String
  | name text => some text
  | param _ => none

end Segment

def segmentsOf (url : String) : List Segment := (Url.segments url.toList).map Segment.ofText

def paramSuffix (params : List String) : String :=
  "By" ++ "And".intercalate (params.map fun param => upperFirst (camelCase param))

def UrlNames.ofSegments (segments : List Segment) : UrlNames :=
  let names := segments.filterMap Segment.name?
  let params := segments.filterMap Segment.param?
  let trailing := (segments.reverse.takeWhile (·.param?.isSome)).reverse.filterMap Segment.param?
  match names.reverse with
  | [] => ⟨"index", "index", "", params⟩
  | last :: before =>
    { funcName := if trailing.isEmpty then last else last ++ paramSuffix trailing
      fileName := before.headD "index"
      dirName := "/".intercalate (before.drop 1).reverse
      pathParams := params }

/-- `/api/v1/user/{id}/info` gives `info` in `user` under `api/v1`. -/
def UrlNames.parse (url : String) : UrlNames := .ofSegments (segmentsOf url)

end TypedClient

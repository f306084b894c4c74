import TypedClient.Naming.Url
import TypedClient.Operation.Basic

namespace TypedClient

/-- The longest spelling of last parameters that ends a name and is not all of it. -/
def paramSuffixOf? (name : String) : List String → Option String
  | [] => none
  | param :: rest =>
    let suffix := paramSuffix (param :: rest)
    if suffix.toList.isSuffixOf name.toList && suffix.length < name.length then some suffix
    else paramSuffixOf? name rest

/-- The last part of an identifier with blanks, hyphens or underscores, if it may be a name. -/
def lastPart? (id : String) : Option String :=
  let tail := String.ofList (Text.afterLast (fun c => Text.isBlank c || c == '-' || c == '_')
    (Text.trim id.toList))
  if isIdentifier tail then some tail else none

/-- A name from the URL, with the method in front where the URL alone does not say enough. -/
def urlFuncName (method : String) (url : UrlNames) : String :=
  match paramSuffixOf? url.funcName url.pathParams with
  | some suffix =>
    let collection := String.ofList (url.funcName.toList.take (url.funcName.length - suffix.length))
    method ++ upperFirst (singularize collection) ++ suffix
  | none =>
    let name := url.funcName
    if isSimilar (some name) (some url.fileName) ||
        url.pathParams.any fun param => isSimilar (some name) (some param) then
      method ++ upperFirst name
    else name

/-- The given name, or the end of the operation's identifier, or a name from the URL. -/
def resolveFuncName (operation : Operation) (url : UrlNames) (given : Option String) : String :=
  match given.filter (· != "") with
  | some name => name
  | none =>
    match (operation.operationId.filter (· != "")).bind lastPart? with
    | some name => name
    | none => urlFuncName operation.method url

end TypedClient

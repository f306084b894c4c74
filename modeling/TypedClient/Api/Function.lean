import TypedClient.Interface.Field
import TypedClient.Notice
import TypedClient.Operation.Basic

-- the names of the cases serve the proofs that the recursion ends
set_option linter.unusedVariables false

namespace TypedClient

structure FunctionContext where
  operation : Option Operation := none
  name : String
  url : String
  method : String
  comment : Option String := none
  pathParams : List FieldOption := []
  queryType : Option String := none
  bodyType : Option String := none
  responseType : Option String := none

abbrev Hook := FunctionContext → Option Value

inductive UrlPart
  | char (c : Char)
  | param (name : String)
  deriving DecidableEq, Repr

def bracedParam? : List Char → Option (List Char × List Char)
  | '\x7b' :: rest =>
    let name := rest.takeWhile (· != '\x7d')
    match rest.drop name.length with
    | _ :: tail => if name.isEmpty then none else some (name, tail)
    | [] => none
  | _ => none

def colonParam? (previous : Option Char) : List Char → Option (List Char × List Char)
  | ':' :: c :: rest =>
    if previous == some '/' && (c.isAlpha || c == '_') then
      some (c :: rest.takeWhile Text.isWord, rest.dropWhile Text.isWord)
    else none
  | _ => none

def paramAt? (previous : Option Char) (text : List Char) : Option (List Char × List Char) :=
  match bracedParam? text with
  | some found => some found
  | none => colonParam? previous text

theorem length_bracedParam? {text name rest : List Char}
    (found : bracedParam? text = some (name, rest)) : rest.length < text.length := by
  unfold bracedParam? at found
  split at found
  · rename_i inner
    simp only at found
    split at found
    · rename_i c tail held
      have bound := congrArg List.length held
      split at found
      · simp at found
      · simp at found bound ⊢
        obtain ⟨_, rfl⟩ := found
        omega
    · simp at found
  · simp at found

theorem length_colonParam? {previous : Option Char} {text name rest : List Char}
    (found : colonParam? previous text = some (name, rest)) : rest.length < text.length := by
  unfold colonParam? at found
  split at found
  · rename_i c inner
    split at found
    · have bound := (List.dropWhile_suffix (l := inner) Text.isWord).length_le
      simp at found ⊢
      obtain ⟨_, rfl⟩ := found
      omega
    · simp at found
  · simp at found

theorem length_paramAt? {previous : Option Char} {text name rest : List Char}
    (found : paramAt? previous text = some (name, rest)) : rest.length < text.length := by
  unfold paramAt? at found
  split at found
  · rename_i braced
    cases found
    exact length_bracedParam? braced
  · exact length_colonParam? found

def urlParts (previous : Option Char) (text : List Char) : List UrlPart :=
  match text with
  | [] => []
  | c :: rest =>
    match found : paramAt? previous (c :: rest) with
    | some (name, tail) => .param (String.ofList name) :: urlParts (some '\x7d') tail
    | none => .char c :: urlParts (some c) rest
termination_by text.length
decreasing_by
  · exact length_paramAt? found
  · exact Nat.lt_add_one _

def UrlPart.text : UrlPart → String
  | char c => String.singleton c
  | param name => "$\x7bparams." ++ sanitizeIdentifier name ++ "\x7d"

def UrlPart.isParam : UrlPart → Bool
  | param _ => true
  | char _ => false

def urlExpression (url : String) : String :=
  let parts := urlParts none url.toList
  if parts.any UrlPart.isParam then "`" ++ String.join (parts.map UrlPart.text) ++ "`"
  else "'" ++ url ++ "'"

def operationMark (method url : String) : String := "@UNOAPI[" ++ method ++ ":" ++ url ++ "]"

def given (text : Option String) : Option String := text.filter (· != "")

namespace FunctionContext

def commentTexts (context : FunctionContext) : List String :=
  (given context.comment).toList ++
    (if context.operation.any (·.deprecated) then ["@deprecated"] else []) ++
    context.pathParams.filterMap (fun param =>
      if param.description.isTrue then
        some ("@param params." ++ sanitizeIdentifier param.name ++ " " ++ param.description.display)
      else none) ++
    [operationMark context.method context.url]

def paramFields (context : FunctionContext) (mapping : TypeMapping) : Except Error String := do
  let lines ← context.pathParams.mapM fun param => do
    let (type, _) ← schemaCode { mapping } "" {} param.schema
    return fieldLine "" param.name param.required type.text
  return " ".intercalate lines

def paramTexts (context : FunctionContext) (mapping : TypeMapping) :
    Except Error (List String) := do
  let path ← if context.pathParams.isEmpty then pure [] else do
    pure ["params: \x7b " ++ (← context.paramFields mapping) ++ " \x7d"]
  return path ++ ((given context.queryType).map ("query: " ++ ·)).toList ++
    ((given context.bodyType).map ("data: " ++ ·)).toList

def optionTexts (context : FunctionContext) : List String :=
  ["url: " ++ urlExpression context.url, "method: '" ++ upperText context.method ++ "'"] ++
    (if (given context.queryType).isSome then ["query"] else []) ++
    (if (given context.bodyType).isSome then ["data"] else [])

def defaultText (context : FunctionContext) (mapping : TypeMapping) : Except Error String := do
  let params ← context.paramTexts mapping
  let response := ((given context.responseType).map fun type => "<" ++ type ++ ">").getD ""
  return docComment "" context.commentTexts ++ "export function " ++ context.name ++ "(" ++
    ", ".intercalate params ++ ") \x7b\n  return request" ++ response ++ "(\x7b " ++
    ", ".intercalate context.optionTexts ++ " \x7d);\n\x7d\n"

def hookText? : Value → Option String
  | .text s =>
    if s.toList.all Text.isBlank then none
    else if ['\n'].isSuffixOf s.toList then some s
    else some (s ++ "\n")
  | _ => none

/-- The hook's text, or the built-in form where the hook fails or has nothing to say. -/
def text (context : FunctionContext) (mapping : TypeMapping) (hook : Option Hook) :
    Noted String := do
  match hook with
  | none => liftExcept (context.defaultText mapping)
  | some hook =>
    match hook context with
    | none => notify (.hookFailed context.method context.url)
    | some value =>
      match hookText? value with
      | some text => return text
      | none => notify (.hookEmpty context.url)
    liftExcept (context.defaultText mapping)

def ofEntries (pathParams : List FieldOption) (operation : Option Operation) (entries : Entries) :
    Except Error FunctionContext :=
  let optionalText (name : String) : Checked (Option String) :=
    Check.optional entries name name none (Check.nullable Check.text)
  Checked.toExcept <|
    (fun name url method comment queryType bodyType responseType =>
        { operation, name, url, method, comment, pathParams, queryType, bodyType, responseType })
      <$> Check.required entries "name" Check.text
      <*> Check.required entries "url" Check.text
      <*> Check.required entries "method" Check.text
      <*> optionalText "comment"
      <*> optionalText "query_type"
      <*> optionalText "body_type"
      <*> optionalText "response_type"

end FunctionContext

end TypedClient

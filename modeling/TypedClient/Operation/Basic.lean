import TypedClient.Text.Blank
import TypedClient.Text.Case
import TypedClient.Validation

namespace TypedClient

structure Operation where
  path : String
  method : String
  summary : Option String
  description : Option String
  tags : List String
  operationId : Option String
  parameters : List Entries
  requestBody : Option Entries
  responses : Entries
  deprecated : Bool

namespace Operation

def check (entries : Entries) : Checked Operation :=
  Operation.mk
    <$> Check.required entries "path" Check.text
    <*> Check.required entries "method" Check.text
    <*> Check.optional entries "summary" "summary" none (Check.nullable Check.text)
    <*> Check.optional entries "description" "description" none (Check.nullable Check.text)
    <*> Check.optional entries "tags" "tags" [] (Check.list Check.text)
    <*> Check.optional entries "operationId" "operation_id" none (Check.nullable Check.text)
    <*> Check.optional entries "parameters" "parameters" [] (Check.list Check.entries)
    <*> Check.optional entries "requestBody" "request_body" none (Check.nullable Check.entries)
    <*> Check.optional entries "responses" "responses" [] Check.entries
    <*> Check.optional entries "deprecated" "deprecated" false Check.bool

def ofEntries (entries : Entries) : Except Error Operation := (check entries).toExcept

def label (operation : Operation) : String :=
  let method := "[" ++ upperText operation.method ++ "]"
  let gap := String.ofList (List.replicate (9 - method.length) ' ')
  let texts := [operation.summary, operation.description].filterMap fun text =>
    text.filter (· != "")
  let line := method ++ gap ++ operation.path ++ " " ++ " - ".intercalate texts
  String.ofList (Text.trimEnd line.toList)

end Operation

end TypedClient

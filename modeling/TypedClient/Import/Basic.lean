import TypedClient.Validation

namespace TypedClient

structure Import where
  path : String
  defaultName : Option String := none
  asName : Option String := none
  names : List String := []
  onlyType : Bool := false
  deriving DecidableEq, Repr, Inhabited

namespace Import

def check (entries : Entries) : Checked Import :=
  Import.mk
    <$> Check.required entries "path" Check.text
    <*> Check.optional entries "default_name" "default_name" none (Check.nullable Check.text)
    <*> Check.optional entries "as_name" "as_name" none (Check.nullable Check.text)
    <*> Check.optional entries "names" "names" [] (Check.list Check.text)
    <*> Check.optional entries "only_type" "only_type" false Check.bool

def ofEntries (entries : Entries) : Except Error Import := (check entries).toExcept

end Import

inductive ImportEntry
  | item (statement : Import)
  | verbatim (text : String)
  deriving DecidableEq, Repr, Inhabited

def ImportEntry.item? : ImportEntry → Option Import
  | item statement => some statement
  | verbatim _ => none

end TypedClient

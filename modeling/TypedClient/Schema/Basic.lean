import TypedClient.Error
import TypedClient.Naming.SchemaKey

namespace TypedClient

abbrev Schemas := List (String × Value)

namespace Schemas

def find? (schemas : Schemas) (key : String) : Option Value := List.lookup key schemas

def without (schemas : Schemas) (key : String) : Schemas := schemas.filter (·.1 != key)

theorem length_without_lt {schemas : Schemas} {key : String} {schema : Value}
    (found : schemas.find? key = some schema) : (schemas.without key).length < schemas.length := by
  induction schemas with
  | nil => simp [find?] at found
  | cons entry rest ih =>
    obtain ⟨name, held⟩ := entry
    by_cases same : key = name
    · subst same
      have bound := List.length_filter_le (fun entry : String × Value => entry.1 != key) rest
      simp [without]
      omega
    · have differs : (key == name) = false := by simp [same]
      have shorter := ih (by simpa [find?, List.lookup_cons, differs] using found)
      have kept : (name != key) = true := by simp [Ne.symm same]
      simp [without, kept] at *
      omega

def ofEntries (entries : Entries) : Schemas :=
  entries.filterMap fun entry =>
    match entry.1 with
    | .text key => some (key, entry.2)
    | _ => none

def ofDocument (document : Entries) : Except Error Schemas :=
  let components := Entries.field document "components"
  if !components.isTrue then .ok []
  else
    match components with
    | .object entries =>
      match Entries.field entries "schemas" with
      | .object schemas => .ok (ofEntries schemas)
      | _ => .ok []
    | _ => .error .notAnObject

end Schemas

namespace Value

def ref? : Value → Option Value
  | .object entries => Entries.find? entries "$ref"
  | _ => none

def toText : Value → Except Error String
  | .text s => .ok s
  | _ => .error .notAText

def elements : Value → Except Error (List Value)
  | .list items => .ok items
  | .text s => .ok (s.toList.map fun c => .text (String.singleton c))
  | .object entries => .ok (entries.map fun entry => .scalar entry.1)
  | .scalar _ => .error .notACollection

def givenElements (value : Value) : Except Error (List Value) :=
  if value.isTrue then value.elements else .ok []

end Value

end TypedClient

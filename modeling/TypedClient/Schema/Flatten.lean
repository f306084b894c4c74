import TypedClient.Schema.Basic

/-!
Merging the parts of an `allOf` into one schema. A part that is a reference contributes what its
schema contributes; a key is opened once on a branch.
-/

-- the names of the cases serve the proofs that the recursion ends
set_option linter.unusedVariables false

namespace TypedClient

structure Members where
  properties : Entries := []
  required : List Value := []

namespace Members

def pairOf : Value → Except Error (Scalar × Value)
  | .list [.scalar key, value] => .ok (key, value)
  | .list [_, _] => .error .unsuitableKey
  | .object [(key, _), (other, _)] => .ok (key, .scalar other)
  | .text s =>
    match s.toList with
    | [a, b] => .ok (.text (String.singleton a), .text (String.singleton b))
    | _ => .error .notAPair
  | .scalar _ => .error .notACollection
  | _ => .error .notAPair

def entriesOf (value : Value) : Except Error Entries :=
  match value with
  | .object entries => .ok entries
  | other => do (← other.givenElements).mapM pairOf

def add (members : Members) : Value → Except Error Members
  | .object entries => do
    let properties ← entriesOf (Entries.field entries "properties")
    let required ← (Entries.field entries "required").givenElements
    return ⟨Entries.insertAll members.properties properties, members.required ++ required⟩
  | _ => .ok members

end Members

def distinctScalars (values : List Value) : Except Error (List Scalar) := do
  let scalars ← values.mapM fun value =>
    match value with
    | .scalar s => .ok s
    | _ => .error Error.unsuitableKey
  return scalars.eraseDupsBy Scalar.same

def withMembers (entries : Entries) (members : Members) : Except Error Value := do
  let merged := (Entries.without entries "allOf").insert (.text "properties")
    (.object members.properties)
  let required ← distinctScalars members.required
  return .object (if required.isEmpty then merged
    else merged.insert (.text "required") (.list (required.map .scalar)))

/-- Whether an object with these entries is merged: two parts, or properties beside the parts. -/
def needsMerge (entries : Entries) (parts : List Value) : Bool :=
  2 ≤ parts.length || (Entries.field entries "properties").isTrue

mutual

def flattenIn (remaining : Schemas) (schema : Value) : Except Error Value :=
  match schema with
  | .object entries =>
    match found : Entries.find? entries "allOf" with
    | some (.list parts) =>
      if needsMerge entries parts then do
        let members ← gatherParts remaining parts {}
        let members ← members.add (.object (Entries.without entries "allOf"))
        withMembers entries members
      else .ok (.object entries)
    | _ => .ok (.object entries)
  | other => .ok other
termination_by (remaining.length, sizeOf schema)
decreasing_by
  have smaller := Entries.sizeOf_find? found
  apply Prod.Lex.right
  simp only [Value.list.sizeOf_spec, Value.object.sizeOf_spec] at smaller ⊢
  omega

def gatherParts (remaining : Schemas) (parts : List Value) (members : Members) :
    Except Error Members :=
  match parts with
  | [] => .ok members
  | part :: rest =>
    match part.ref? with
    | some ref => do
      let key ← schemaKey <$> ref.toText
      match found : remaining.find? key with
      | some target =>
        let resolved ← flattenIn (remaining.without key) target
        gatherParts remaining rest (← members.add resolved)
      | none => gatherParts remaining rest members
    | none => do
      let resolved ← flattenIn remaining part
      gatherParts remaining rest (← members.add resolved)
termination_by (remaining.length, sizeOf parts)
decreasing_by
  · exact Prod.Lex.left _ _ (Schemas.length_without_lt found)
  all_goals
    apply Prod.Lex.right
    simp only [List.cons.sizeOf_spec]
    omega

end

def flatten (schemas : Schemas) (schema : Value) : Except Error Value := flattenIn schemas schema

end TypedClient

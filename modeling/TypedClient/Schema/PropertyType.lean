import TypedClient.Schema.Resolve

/-!
The type expression of a schema. Models are referred to by name; everything else is written inline,
each key at most once on a branch.
-/

-- the names of the cases serve the proofs that the recursion ends
set_option linter.unusedVariables false

namespace TypedClient

inductive PropertyType
  | plain (text : String)
  | literals (texts : List String)
  | union (variants : List PropertyType)
  | intersection (variants : List PropertyType)
  | array (item : PropertyType)
  | record (value : PropertyType)
  deriving Repr, Inhabited

namespace PropertyType

def grouped (text : String) : String :=
  if containsText " | " text || containsText " & " text then "(" ++ text ++ ")" else text

mutual

def render : PropertyType → String
  | plain text => text
  | literals texts => " | ".intercalate texts
  | union variants => " | ".intercalate (renderAll variants)
  | intersection variants => " & ".intercalate (renderAll variants)
  | array item => grouped (render item) ++ "[]"
  | record value => "Record<string, " ++ render value ++ ">"
termination_by structural type => type

def renderAll : List PropertyType → List String
  | [] => []
  | variant :: rest => render variant :: renderAll rest
termination_by structural types => types

end

def ofVariants (form : List PropertyType → PropertyType) (variants : List PropertyType) :
    PropertyType :=
  if variants.isEmpty then plain "any"
  else form (variants.eraseDupsBy fun a b => a.render == b.render)

end PropertyType

structure Typed where
  type : PropertyType
  refs : List String := []
  fileNames : List String := []

structure TypedVariants where
  types : List PropertyType := []
  refs : List String := []
  fileNames : List String := []

def TypedVariants.cons (variants : TypedVariants) (first : Typed) : TypedVariants :=
  ⟨first.type :: variants.types, first.refs ++ variants.refs, first.fileNames ++ variants.fileNames⟩

def TypedVariants.combine (variants : TypedVariants)
    (form : List PropertyType → PropertyType) : Typed :=
  ⟨.ofVariants form variants.types, variants.refs, variants.fileNames⟩

structure TypeContext where
  mapping : TypeMapping := []
  schemas : Schemas := []

def literalText : Value → String
  | .bool b => if b then "true" else "false"
  | .int n => toString n
  | .scalar (.float x) => (Scalar.float x).display
  | .null => "null"
  | other => "'" ++ replaceText "'" "\\'" other.display ++ "'"

namespace PropertyType

def ofName (mapping : TypeMapping) (name : String) : PropertyType :=
  plain ((mapping.find? name).getD "any")

def ofEnum (choices : Value) : Except Error PropertyType := do
  return literals ((← choices.elements).map literalText).eraseDups

def ofTypeField (mapping : TypeMapping) : Value → Except Error PropertyType
  | .text name => .ok (ofName mapping name)
  | .scalar _ => .ok (plain "any")
  | _ => .error .unsuitableKey

end PropertyType

def isNullSchema (schema : Value) : Bool := (schema.field "type").isText "null"

def variantsUnder? (entries : Entries) (name : String) : Option (List Value) :=
  match Entries.find? entries name with
  | some (.list (first :: rest)) => some (first :: rest)
  | _ => none

theorem sizeOf_variantsUnder? {entries : Entries} {name : String} {variants : List Value}
    (found : variantsUnder? entries name = some variants) : sizeOf variants < sizeOf entries := by
  unfold variantsUnder? at found
  split at found
  · rename_i first rest held
    have smaller := Entries.sizeOf_find? held
    simp at found smaller
    subst found
    simp
    omega
  · simp at found

inductive SchemaForm
  | array (items : Value)
  | enum (choices : Value)
  | record (value : Value)
  | object
  | named (type : Value)

/-- Choices come before structure, unless the type is object. -/
def SchemaForm.ofEntries (entries : Entries) : SchemaForm :=
  let type := Entries.field entries "type"
  let choices := Entries.field entries "enum"
  let hasProperties := (Entries.field entries "properties").isTrue
  let extra := Entries.field entries "additionalProperties"
  if type.isText "array" then .array (Entries.field entries "items")
  else if choices.isTrue && !type.isText "object" then .enum choices
  else if (type.isText "object" || type.isNull) && !hasProperties && extra.isObject then
    .record extra
  else if type.isNull && hasProperties then .object
  else .named type

theorem sizeOf_items {entries : Entries} {items : Value}
    (form : SchemaForm.ofEntries entries = .array items) (given : items.isTrue = true) :
    sizeOf items < sizeOf entries := by
  have smaller := @Entries.sizeOf_field entries "items"
  simp only [SchemaForm.ofEntries] at form
  split at form
  · cases form
    exact smaller (by rintro absent; simp [absent, Value.isTrue, Scalar.isTrue] at given)
  · split at form <;> (try split at form) <;> (try split at form) <;> cases form

theorem sizeOf_record {entries : Entries} {value : Value}
    (form : SchemaForm.ofEntries entries = .record value) : sizeOf value < sizeOf entries := by
  have smaller := @Entries.sizeOf_field entries "additionalProperties"
  simp only [SchemaForm.ofEntries] at form
  split at form
  · cases form
  · split at form
    · cases form
    · split at form
      · rename_i guard
        cases form
        exact smaller (by rintro absent; simp [absent, Value.isObject] at guard)
      · split at form <;> cases form

mutual

/-- The type of a schema, with the collection of the keys that are still closed on the branch. -/
def typeOf (context : TypeContext) (remaining : Schemas) (schema : Value) : Except Error Typed :=
  match schema with
  | .text name => .ok ⟨.ofName context.mapping name, [], []⟩
  | .object entries =>
    if (Entries.field entries "$ref").isTrue then
      match Entries.field entries "$ref" with
      | .text ref => typeOfRef context remaining ref
      | _ => .error .notAText
    else
      match all : variantsUnder? entries "allOf" with
      | some variants => return (← typesOf context remaining variants).combine .intersection
      | none =>
        match one : variantsUnder? entries "oneOf" with
        | some variants => return (← typesOf context remaining variants).combine .union
        | none =>
          match any : variantsUnder? entries "anyOf" with
          | some variants => return (← typesOf context remaining variants).combine .union
          | none =>
            match form : SchemaForm.ofEntries entries with
            | .array items =>
              if given : items.isTrue then do
                let item ← typeOf context remaining items
                return { item with type := .array item.type }
              else .ok ⟨.array (.plain "any"), [], []⟩
            | .enum choices => return ⟨← PropertyType.ofEnum choices, [], []⟩
            | .record value => do
              let value ← typeOf context remaining value
              return { value with type := .record value.type }
            | .object => .ok ⟨.plain "object", [], []⟩
            | .named type => return ⟨← PropertyType.ofTypeField context.mapping type, [], []⟩
  | _ => .ok ⟨.plain "any", [], []⟩
termination_by (remaining.length, sizeOf schema)
decreasing_by
  all_goals apply Prod.Lex.right
  all_goals simp only [Value.object.sizeOf_spec]
  · omega
  · have := sizeOf_variantsUnder? all
    omega
  · have := sizeOf_variantsUnder? one
    omega
  · have := sizeOf_variantsUnder? any
    omega
  · have := sizeOf_items form given
    omega
  · have := sizeOf_record form
    omega

def typesOf (context : TypeContext) (remaining : Schemas) (variants : List Value) :
    Except Error TypedVariants :=
  match variants with
  | [] => .ok {}
  | variant :: rest =>
    if isNullSchema variant then typesOf context remaining rest
    else do
      let first ← typeOf context remaining variant
      return (← typesOf context remaining rest).cons first
termination_by (remaining.length, sizeOf variants)

def typeOfRef (context : TypeContext) (remaining : Schemas) (ref : String) : Except Error Typed :=
  let key := schemaKey ref
  let name := SchemaName.parse context.mapping ref
  match context.mapping.lookup name.typeName with
  | some chosen => .ok ⟨.plain chosen, [], []⟩
  | none =>
    let primitive := (context.mapping.find? name.typeName).getD "any"
    if isBaseType primitive && primitive != "any" then .ok ⟨.plain primitive, [ref], []⟩
    else
      match found : remaining.find? key with
      | none => .ok ⟨.plain name.typeName, [ref], [name.fileName]⟩
      | some target =>
        match target.ref? with
        | some next => do typeOfRef context (remaining.without key) (← next.toText)
        | none => do
          if ← isModel context.schemas key target then
            return ⟨.plain name.typeName, [ref], [name.fileName]⟩
          else typeOf context (remaining.without key) target
termination_by (remaining.length, 0)
decreasing_by all_goals exact Prod.Lex.left _ _ (Schemas.length_without_lt found)

end

end TypedClient

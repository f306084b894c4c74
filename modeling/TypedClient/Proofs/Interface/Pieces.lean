import TypedClient.Interface.Model
import TypedClient.Proofs.Interface.Fields

/-!
The fields of an interface apart from their parameters: the types of its fields, in the order in
which they are printed, and the text between them. Printing the types one after another, with
parameters for arguments, gives the code of the fields.
-/

-- the names of the cases serve the proofs that the recursion ends
set_option linter.unusedVariables false

namespace TypedClient

/-- Text as it stands, or the type of a field with the references behind it. -/
inductive Piece
  | fixed (text : String)
  | type (text : String) (refs : List String)
  deriving DecidableEq, Repr

def Piece.text : Piece → String
  | fixed text => text
  | type text _ => text

/-- The text of all pieces. -/
def spelled (pieces : List Piece) : String := String.join (pieces.map Piece.text)

@[simp]
theorem spelled_cons (piece : Piece) (rest : List Piece) :
    spelled (piece :: rest) = piece.text ++ spelled rest := by
  simp [spelled, String.join_cons]

section Definitions

def allowedType (context : FieldContext) (type : String) : String :=
  if context.ignores.isEmpty then type
  else
    let stripped := stripIgnored context.ignores type
    if stripped == "" then "any" else stripped

def plainType (context : FieldContext) (schema : Value) : Except Error Piece := do
  let typed ← typeOf context.toTypeContext context.schemas schema
  return .type (allowedType context typed.type.render) typed.refs

def lineStart (indent name : String) (required : Bool) : String :=
  let clean := sanitizeIdentifier name
  indent ++ (if clean == "" then "'" ++ name ++ "'" else clean) ++ (if required then "" else "?") ++
    ": "

def lineEnd (name : String) : String :=
  let clean := sanitizeIdentifier name
  if (if clean == "" then "'" ++ name ++ "'" else clean) == name then ";"
  else "; // WARN: original field name \"" ++ name ++ "\""

def fieldFrame (indent : String) (required : Value) (key : Scalar) (schema : Value) :
    Except Error (String × String) := do
  match key with
  | .text name =>
    let comment := docComment indent (← fieldTexts (schema.field "description") schema)
    let start := lineStart indent name (← isRequired required name)
    return (comment ++ start, lineEnd name ++ "\n")
  | _ => throw .unsuitableKey

mutual

def schemaPieces (context : FieldContext) (indent : String) (schema : Value) :
    Except Error (List Piece) :=
  match own : inlineProperties? schema with
  | some properties => do
    let body ← fieldsPieces context (indent ++ "  ") (schema.field "required") properties
    return .fixed "\x7b\n" :: body ++ [.fixed (indent ++ "\x7d")]
  | none =>
    match listed : arrayItems? schema with
    | some items =>
      if (inlineProperties? items).isSome then do
        return (← schemaPieces context indent items) ++ [.fixed "[]"]
      else return [← plainType context schema]
    | none => return [← plainType context schema]
termination_by sizeOf schema
decreasing_by
  · exact sizeOf_inlineProperties? own
  · exact sizeOf_arrayItems? listed

def fieldsPieces (context : FieldContext) (indent : String) (required : Value)
    (properties : Entries) : Except Error (List Piece) :=
  match properties with
  | [] => .ok []
  | (key, schema) :: rest => do
    let type ← schemaPieces context indent schema
    let (start, finish) ← fieldFrame indent required key schema
    return .fixed start :: type ++ .fixed finish :: (← fieldsPieces context indent required rest)
termination_by sizeOf properties

end

/-- The pieces of the fields that a flat schema declares. -/
def interfacePieces (context : FieldContext) (flat : Value) : Except Error (List Piece) := do
  fieldsPieces context "  " (flat.field "required") (← declaredFields (flat.field "properties"))

/-- The code of the fields that a flat schema declares. -/
def interfaceCode (context : FieldContext) (generics : Generics) (flat : Value) :
    Except Error (Code × Generics) := do
  fieldsCode context "  " (flat.field "required") generics
    (← declaredFields (flat.field "properties"))

end Definitions

namespace Code

theorem empty_append (code : Code) : append {} code = code := by simp [append]

theorem append_empty (code : Code) : code.append {} = code := by simp [append]

theorem append_assoc (a b c : Code) : (a.append b).append c = a.append (b.append c) := by
  simp [append, String.append_assoc]

end Code

namespace Generics

def print (generics : Generics) : Piece → Code × Generics
  | .fixed text => ({ text := text }, generics)
  | .type text refs =>
    match generics.substitute text (!refs.isEmpty) with
    | some (parameter, later) => (⟨parameter, refs, []⟩, later)
    | none => (⟨text, refs, modelNames text⟩, generics)

def fill (generics : Generics) : List Piece → Code × Generics
  | [] => ({}, generics)
  | piece :: rest =>
    let (code, later) := generics.print piece
    let (others, last) := later.fill rest
    (code.append others, last)

theorem fill_append (generics : Generics) (front back : List Piece) :
    generics.fill (front ++ back) =
      ((generics.fill front).1.append ((generics.fill front).2.fill back).1,
        ((generics.fill front).2.fill back).2) := by
  induction front generalizing generics with
  | nil => simp [fill, Code.empty_append]
  | cons piece rest ih => simp [fill, ih, Code.append_assoc]

theorem fill_framed (generics : Generics) (start finish : String) (pieces : List Piece) :
    generics.fill (.fixed start :: pieces ++ [.fixed finish]) =
      ({ (generics.fill pieces).1 with text := start ++ (generics.fill pieces).1.text ++ finish },
        (generics.fill pieces).2) := by
  simp [fill_append, fill, print, Code.append, String.append_assoc]

theorem fill_field (generics : Generics) (start finish : String) (type rest : List Piece) :
    generics.fill (.fixed start :: type ++ .fixed finish :: rest) =
      (({ (generics.fill type).1 with text := start ++ (generics.fill type).1.text ++ finish } :
          Code).append ((generics.fill type).2.fill rest).1,
        ((generics.fill type).2.fill rest).2) := by
  rw [List.append_cons, fill_append, fill_framed]

end Generics

theorem lineStart_lineEnd (indent name type : String) (required : Bool) :
    fieldLine indent name required type =
      lineStart indent name required ++ type ++ lineEnd name := by
  unfold fieldLine lineStart lineEnd
  simp only
  split <;> split <;> simp_all [String.append_assoc]

variable (context : FieldContext)

theorem fieldCode_eq (indent : String) (required : Value) (key : Scalar) (schema : Value)
    (type : Code) :
    fieldCode indent required key schema type =
      (fun frame : String × String => { type with text := frame.1 ++ type.text ++ frame.2 }) <$>
        fieldFrame indent required key schema := by
  unfold fieldCode fieldFrame
  cases key with
  | text name =>
      simp only [map_bind, map_pure, lineStart_lineEnd, String.append_assoc]
  | _ => rfl

theorem namedType_eq (generics : Generics) (schema : Value) :
    namedType context generics schema = generics.print <$> plainType context schema := by
  simp only [namedType, plainType, map_bind, map_pure]
  congr 1
  funext typed
  change (match generics.substitute (allowedType context typed.type.render) (!typed.refs.isEmpty)
    with
    | some (parameter, later) => _
    | none => _) = _
  rw [Generics.print]
  cases generics.substitute (allowedType context typed.type.render) (!typed.refs.isEmpty) with
  | none => rfl
  | some answer => rfl

section Cases

variable {context} {indent : String} {schema : Value}

theorem schemaPieces_inline {properties : Entries}
    (own : inlineProperties? schema = some properties) :
    schemaPieces context indent schema = (do
      let body ← fieldsPieces context (indent ++ "  ") (schema.field "required") properties
      return .fixed "\x7b\n" :: body ++ [.fixed (indent ++ "\x7d")]) := by
  rw [schemaPieces]
  split
  · rename_i other found
    cases own.symm.trans found
    rfl
  · rename_i found
    cases own.symm.trans found

theorem schemaPieces_array {items : Value} (foreign : inlineProperties? schema = none)
    (listed : arrayItems? schema = some items) (inline : (inlineProperties? items).isSome = true) :
    schemaPieces context indent schema =
      (do return (← schemaPieces context indent items) ++ [.fixed "[]"]) := by
  rw [schemaPieces]
  split
  · rename_i other found
    cases foreign.symm.trans found
  · split
    · rename_i other found
      cases listed.symm.trans found
      rw [if_pos inline]
    · rename_i found
      cases listed.symm.trans found

theorem schemaPieces_named (foreign : inlineProperties? schema = none)
    (named : ∀ items, arrayItems? schema = some items → (inlineProperties? items).isSome = false) :
    schemaPieces context indent schema = (do return [← plainType context schema]) := by
  rw [schemaPieces]
  split
  · rename_i other found
    cases foreign.symm.trans found
  · split
    · rename_i items listed
      rw [named items listed, if_neg Bool.false_ne_true]
    · rfl

end Cases

section Source

variable {context} {P : Value → Prop} {type : String} {refs : List String}

mutual

theorem part_of_schemaPieces (passes : PassesDown P) (indent : String) (schema : Value)
    (pieces : List Piece) (inside : P schema)
    (made : schemaPieces context indent schema = .ok pieces) (member : .type type refs ∈ pieces) :
    ∃ part, P part ∧ plainType context part = .ok (.type type refs) := by
  rw [schemaPieces] at made
  have named (made : (do return [← plainType context schema]) = .ok pieces) :
      ∃ part, P part ∧ plainType context part = .ok (.type type refs) := by
    obtain ⟨piece, typed, same⟩ := (bind_eq_ok _ _ _).mp made
    cases same
    rw [← List.mem_singleton.mp member] at typed
    exact ⟨schema, inside, typed⟩
  split at made
  · rename_i properties own
    have smaller := sizeOf_inlineProperties? own
    have parts := passes.entry (passes.inlineProperties inside own)
    obtain ⟨body, fields, same⟩ := (bind_eq_ok _ _ _).mp made
    cases same
    refine part_of_fieldsPieces passes _ _ properties body parts fields ?_
    simpa using member
  · split at made
    · rename_i items listed
      have smaller := sizeOf_arrayItems? listed
      split at made
      · obtain ⟨body, item, same⟩ := (bind_eq_ok _ _ _).mp made
        cases same
        have part := passes.arrayItems inside listed
        refine part_of_schemaPieces passes indent items body part item ?_
        simpa using member
      · exact named made
    · exact named made
termination_by sizeOf schema
decreasing_by all_goals exact smaller

theorem part_of_fieldsPieces (passes : PassesDown P) (indent : String) (required : Value)
    (properties : Entries) (pieces : List Piece) (inside : ∀ entry ∈ properties, P entry.2)
    (made : fieldsPieces context indent required properties = .ok pieces)
    (member : .type type refs ∈ pieces) :
    ∃ part, P part ∧ plainType context part = .ok (.type type refs) := by
  match properties, inside, made with
  | [], _, made =>
      rw [fieldsPieces] at made
      cases made
      cases member
  | (key, schema) :: rest, inside, made =>
      have smaller : sizeOf schema < sizeOf ((key, schema) :: rest) := by
        simp only [List.cons.sizeOf_spec, Prod.mk.sizeOf_spec]
        omega
      have shorter : sizeOf rest < sizeOf ((key, schema) :: rest) := by
        simp only [List.cons.sizeOf_spec]
        omega
      rw [fieldsPieces] at made
      obtain ⟨own, typed, made⟩ := (bind_eq_ok _ _ _).mp made
      obtain ⟨⟨start, finish⟩, -, made⟩ := (bind_eq_ok _ _ _).mp made
      obtain ⟨others, fields, same⟩ := (bind_eq_ok _ _ _).mp made
      cases same
      have cases : .type type refs ∈ own ∨ .type type refs ∈ others := by simpa using member
      rcases cases with first | later
      · exact part_of_schemaPieces passes indent schema own (inside (key, schema) (by simp)) typed
          first
      · exact part_of_fieldsPieces passes indent required rest others
          (fun entry member => inside entry (by simp [member])) fields later
termination_by sizeOf properties
decreasing_by all_goals assumption

end

theorem part_of_interfacePieces (passes : PassesDown P) {flat : Value} {pieces : List Piece}
    (given : PropertiesHave P flat) (made : interfacePieces context flat = .ok pieces)
    (member : .type type refs ∈ pieces) :
    ∃ part, P part ∧ plainType context part = .ok (.type type refs) := by
  obtain ⟨entries, read, fields⟩ := (bind_eq_ok _ _ _).mp made
  exact part_of_fieldsPieces passes _ _ entries pieces
    (CodeRules.declared_of_propertiesHave given read) fields member

end Source

section Congruence

variable {first second : FieldContext} {P : Value → Prop} {shape : Piece → Piece}

mutual

/-- Where one context gives parts of a schema the types of another in a new shape, the pieces of the
schema differ by that shape. -/
theorem schemaPieces_map (passes : PassesDown P)
    (fixed : ∀ text, shape (.fixed text) = .fixed text)
    (plain : ∀ schema, P schema → plainType first schema = shape <$> plainType second schema)
    (indent : String) (schema : Value) (inside : P schema) :
    schemaPieces first indent schema = List.map shape <$> schemaPieces second indent schema := by
  cases own : inlineProperties? schema with
  | some properties =>
      have smaller := sizeOf_inlineProperties? own
      have parts := passes.entry (passes.inlineProperties inside own)
      rw [schemaPieces_inline own, schemaPieces_inline own,
        fieldsPieces_map passes fixed plain _ _ properties parts]
      simp [fixed]
  | none =>
      -- only a schema that is not written inline shows a type of its own
      by_cases literals : ∃ items, arrayItems? schema = some items ∧
          (inlineProperties? items).isSome = true
      · obtain ⟨items, listed, inline⟩ := literals
        have smaller := sizeOf_arrayItems? listed
        have part := passes.arrayItems inside listed
        rw [schemaPieces_array own listed inline, schemaPieces_array own listed inline,
          schemaPieces_map passes fixed plain indent items part]
        simp [fixed]
      · have named : ∀ items, arrayItems? schema = some items →
            (inlineProperties? items).isSome = false := by
          intro items listed
          cases inline : (inlineProperties? items).isSome with
          | true => exact absurd ⟨items, listed, inline⟩ literals
          | false => rfl
        rw [schemaPieces_named own named, schemaPieces_named own named, plain schema inside]
        simp
termination_by sizeOf schema
decreasing_by all_goals exact smaller

theorem fieldsPieces_map (passes : PassesDown P)
    (fixed : ∀ text, shape (.fixed text) = .fixed text)
    (plain : ∀ schema, P schema → plainType first schema = shape <$> plainType second schema)
    (indent : String) (required : Value) (properties : Entries)
    (inside : ∀ entry ∈ properties, P entry.2) :
    fieldsPieces first indent required properties =
      List.map shape <$> fieldsPieces second indent required properties := by
  match properties, inside with
  | [], _ =>
      rw [fieldsPieces, fieldsPieces]
      rfl
  | (key, schema) :: rest, inside =>
      have smaller : sizeOf schema < sizeOf ((key, schema) :: rest) := by
        simp only [List.cons.sizeOf_spec, Prod.mk.sizeOf_spec]
        omega
      have shorter : sizeOf rest < sizeOf ((key, schema) :: rest) := by
        simp only [List.cons.sizeOf_spec]
        omega
      rw [fieldsPieces, fieldsPieces,
        schemaPieces_map passes fixed plain indent schema (inside (key, schema) (by simp)),
        fieldsPieces_map passes fixed plain indent required rest
          fun entry member => inside entry (by simp [member])]
      simp [map_bind, bind_map_left, fixed]
termination_by sizeOf properties
decreasing_by all_goals assumption

end

theorem interfacePieces_map (passes : PassesDown P)
    (fixed : ∀ text, shape (.fixed text) = .fixed text)
    (plain : ∀ schema, P schema → plainType first schema = shape <$> plainType second schema)
    {flat : Value} (given : PropertiesHave P flat) :
    interfacePieces first flat = List.map shape <$> interfacePieces second flat := by
  rw [interfacePieces, interfacePieces]
  cases read : declaredFields (flat.field "properties") with
  | error failure => rfl
  | ok entries =>
      exact fieldsPieces_map passes fixed plain _ _ entries
        (CodeRules.declared_of_propertiesHave given read)

theorem schemaPieces_congr (passes : PassesDown P)
    (plain : ∀ schema, P schema → plainType first schema = plainType second schema)
    (indent : String) (schema : Value) (inside : P schema) :
    schemaPieces first indent schema = schemaPieces second indent schema := by
  have same := @schemaPieces_map first second P id passes (fun _ => rfl)
    (fun schema inside => by simpa using plain schema inside) indent schema inside
  simpa using same

theorem interfacePieces_congr (passes : PassesDown P)
    (plain : ∀ schema, P schema → plainType first schema = plainType second schema)
    {flat : Value} (given : PropertiesHave P flat) :
    interfacePieces first flat = interfacePieces second flat := by
  have same := @interfacePieces_map first second P id passes (fun _ => rfl)
    (fun schema inside => by simpa using plain schema inside) flat given
  simpa using same

end Congruence

theorem Generics.fill_singleton (generics : Generics) (piece : Piece) :
    generics.fill [piece] = generics.print piece := by
  simp [fill, Code.append_empty]

mutual

theorem schemaCode_eq (indent : String) (generics : Generics) (schema : Value) :
    schemaCode context indent generics schema =
      generics.fill <$> schemaPieces context indent schema := by
  have single : namedType context generics schema =
      generics.fill <$> (do return [← plainType context schema]) := by
    simp only [namedType_eq, map_eq_pure_bind, bind_assoc, pure_bind, Generics.fill_singleton]
  rw [schemaCode]
  split
  · rename_i properties own
    have smaller := sizeOf_inlineProperties? own
    rw [fieldsCode_eq, schemaPieces_inline own]
    simp only [map_bind, map_pure, bind_map_left, Generics.fill_framed, String.append_assoc]
  · rename_i foreign
    split
    · rename_i items listed
      have smaller := sizeOf_arrayItems? listed
      split
      · rename_i inline
        rw [schemaCode_eq, schemaPieces_array foreign listed inline]
        simp only [map_bind, map_pure, bind_map_left, Generics.fill_append,
          Generics.fill_singleton, Generics.print, Code.append, List.append_nil]
      · rename_i outside
        rw [single, schemaPieces_named foreign]
        intro other found
        cases listed.symm.trans found
        simpa using outside
    · rename_i unlisted
      rw [single, schemaPieces_named foreign]
      intro other found
      cases unlisted.symm.trans found
termination_by sizeOf schema
decreasing_by all_goals exact smaller

theorem fieldsCode_eq (indent : String) (required : Value) (generics : Generics)
    (properties : Entries) :
    fieldsCode context indent required generics properties =
      generics.fill <$> fieldsPieces context indent required properties := by
  match properties with
  | [] =>
      rw [fieldsCode, fieldsPieces]
      rfl
  | (key, schema) :: rest =>
      have smaller : sizeOf schema < sizeOf ((key, schema) :: rest) := by
        simp only [List.cons.sizeOf_spec, Prod.mk.sizeOf_spec]
        omega
      have shorter : sizeOf rest < sizeOf ((key, schema) :: rest) := by
        simp only [List.cons.sizeOf_spec]
        omega
      rw [fieldsCode, fieldsPieces, schemaCode_eq]
      simp only [map_bind, map_pure, bind_map_left, fieldCode_eq,
        fun later => fieldsCode_eq indent required later rest, Generics.fill_field]
termination_by sizeOf properties
decreasing_by all_goals assumption

end

theorem interfaceCode_eq (generics : Generics) (flat : Value) :
    interfaceCode context generics flat = generics.fill <$> interfacePieces context flat := by
  simp only [interfaceCode, interfacePieces, fieldsCode_eq, map_bind]

def ModelCode.ofPieces (ref : String) (flat : Value) (pieces : List Piece) : ModelCode :=
  let key := schemaKey ref
  let name := SchemaName.parse context.mapping key
  let filled := (Generics.ofTypeName name.typeName).fill pieces
  let imported := importedNames name.fileName filled.2.names filled.1.typeNames
  { text := interfaceText imported filled.2.names name.fileName key (flat.field "description")
      filled.1.text
    refs := filled.1.refs
    typeNames := imported
    typeName := name.typeName
    fileName := name.fileName
    key := key
    generics := filled.2.names }

theorem ModelCode.names_ofPieces (ref : String) (flat : Value) (pieces : List Piece) :
    (ofPieces context ref flat pieces).typeName =
        (SchemaName.parse context.mapping (schemaKey ref)).typeName ∧
      (ofPieces context ref flat pieces).fileName =
        (SchemaName.parse context.mapping (schemaKey ref)).fileName := by
  simp only [ofPieces, and_self]

theorem modelCode_eq (ref : String) (schema : Value) :
    modelCode context ref schema = (do
      let flat ← flatten context.schemas schema
      return .ofPieces context ref flat (← interfacePieces context flat)) := by
  simp only [modelCode, interfacePieces, fieldsCode_eq, bind_map_left, bind_assoc]
  rfl

end TypedClient

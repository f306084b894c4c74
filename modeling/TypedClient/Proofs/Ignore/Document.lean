import TypedClient.Api.Generate
import TypedClient.Proofs.Interface.Pieces

namespace TypedClient

inductive PartOf (roots : List Value) : Value → Prop
  | root {value : Value} (member : value ∈ roots) : PartOf roots value
  | item {items : List Value} {item : Value} (whole : PartOf roots (.list items))
      (member : item ∈ items) : PartOf roots item
  | entry {entries : Entries} {entry : Scalar × Value} (whole : PartOf roots (.object entries))
      (member : entry ∈ entries) : PartOf roots entry.2

theorem PartOf.trans {roots : List Value} {whole part : Value} (inside : PartOf [whole] part)
    (outer : PartOf roots whole) : PartOf roots part := by
  induction inside with
  | root member =>
      rw [List.mem_singleton.mp member]
      exact outer
  | item _ member ih => exact .item ih member
  | entry _ member ih => exact .entry ih member

/-- Nothing stands in a scalar but itself. -/
theorem PartOf.eq_scalar {s : Scalar} {part : Value} (inside : PartOf [.scalar s] part) :
    part = .scalar s := by
  induction inside with
  | root member => exact List.mem_singleton.mp member
  | item _ _ ih => cases ih
  | entry _ _ ih => cases ih

section Types

/-- The types that the fields of a schema have in its interface. -/
def FieldType (context : TypeContext) (schema : Value) (type : String) : Prop :=
  ∃ flat pieces refs, flatten context.schemas schema = .ok flat ∧
    interfacePieces ⟨context, []⟩ flat = .ok pieces ∧ Piece.type type refs ∈ pieces

/-- The types of the body and of the response of an operation. -/
inductive FunctionType (context : TypeContext) (operation : Operation) : String → Prop
  | body {type : String} {refs : List String}
      (shown : ShownSchemas.bodyOf { mapping := context.mapping, schemas := context.schemas }
        operation.requestBody = .ok (some (type, refs))) : FunctionType context operation type
  | response {type : String} {refs : List String}
      (shown : ShownSchemas.responseOf { mapping := context.mapping, schemas := context.schemas }
        operation.responses = .ok (some (type, refs))) : FunctionType context operation type

/-- The types of operations, and of the fields of a collection. -/
inductive ShownType (context : TypeContext) (operations : List Operation) : String → Prop
  | function {operation : Operation} {type : String} (member : operation ∈ operations)
      (own : FunctionType context operation type) : ShownType context operations type
  | field {entry : String × Value} {type : String} (member : entry ∈ context.schemas)
      (own : FieldType context entry.2 type) : ShownType context operations type

end Types

section Left

def Piece.allowed (context : FieldContext) : Piece → Piece
  | fixed text => .fixed text
  | type text refs => .type (allowedType context text) refs

theorem plainType_allowed (context : FieldContext) (schema : Value) :
    plainType context schema =
      Piece.allowed context <$> plainType ⟨context.toTypeContext, []⟩ schema := by
  simp only [plainType, map_bind, map_pure]
  rfl

theorem interfacePieces_allowed (context : FieldContext) (flat : Value) :
    interfacePieces context flat =
      List.map (Piece.allowed context) <$> interfacePieces ⟨context.toTypeContext, []⟩ flat := by
  have whole : PassesDown fun _ => True := by constructor <;> simp
  have fields : PropertiesHave (fun _ => True) flat := fun _ _ _ _ => trivial
  exact interfacePieces_map whole (fun _ => rfl) (fun schema _ => plainType_allowed context schema)
    fields

def stripShown (ignores : List Ignore) (shown : String × List String) : String × List String :=
  (stripIgnored ignores shown.1, shown.2)

theorem stripIgnored_nil (type : String) : stripIgnored [] type = type := by simp [stripIgnored]

variable (options : GenerateOptions)

theorem shownType_strip (schema : Value) : shownType options schema =
    stripShown options.ignores <$>
      shownType { mapping := options.mapping, schemas := options.schemas } schema := by
  simp only [shownType, map_bind, map_pure, stripShown, stripIgnored_nil]

theorem bodyOf_strip (request : Option Entries) : ShownSchemas.bodyOf options request =
    Option.map (stripShown options.ignores) <$>
      ShownSchemas.bodyOf { mapping := options.mapping, schemas := options.schemas } request := by
  match request with
  | none => rfl
  | some [] => rfl
  | some (entry :: rest) =>
      simp only [ShownSchemas.bodyOf, shownType_strip options, map_bind, map_pure, bind_map_left,
        Option.map_some]

theorem responseOf_strip (responses : Entries) : ShownSchemas.responseOf options responses =
    Option.map (stripShown options.ignores) <$> ShownSchemas.responseOf
      { mapping := options.mapping, schemas := options.schemas } responses := by
  rw [ShownSchemas.responseOf, ShownSchemas.responseOf, map_bind]
  congr 1
  funext schema
  split
  · rfl
  · rw [shownType_strip, Functor.map_map, Functor.map_map]
    rfl

end Left

end TypedClient

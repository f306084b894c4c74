import TypedClient.Proofs.Api.Generated
import TypedClient.Proofs.Closure.Imports
import TypedClient.Proofs.Ignore.Document
import TypedClient.Proofs.Interface.Parameters
import TypedClient.Proofs.Schema.Texts

namespace TypedClient

open TypeExpr

/-- The models that a piece names. -/
def Piece.models : Piece → List String
  | fixed _ => []
  | type text _ => modelNames text

namespace FunctionContext

/-- The types of the path parameters, with the text between them if they are written out. -/
def pathPieces (context : FunctionContext) (mapping : TypeMapping) :
    Except Error (List (List Piece)) :=
  context.pathParams.mapM fun param => schemaPieces { mapping } "" param.schema

def pathText (context : FunctionContext) (types : List String) : List String :=
  if context.pathParams.isEmpty then []
  else
    ["params: \x7b " ++ " ".intercalate (context.pathParams.zipWith
      (fun param type => fieldLine "" param.name param.required type) types) ++ " \x7d"]

/-- The built-in form of the function, with path parameters of the given types. -/
def declare (context : FunctionContext) (types : List String) : String :=
  let params := context.pathText types ++ ((given context.queryType).map ("query: " ++ ·)).toList ++
    ((given context.bodyType).map ("data: " ++ ·)).toList
  let response := ((given context.responseType).map fun type => "<" ++ type ++ ">").getD ""
  docComment "" context.commentTexts ++ "export function " ++ context.name ++ "(" ++
    ", ".intercalate params ++ ") \x7b\n  return request" ++ response ++ "(\x7b " ++
    ", ".intercalate context.optionTexts ++ " \x7d);\n\x7d\n"

end FunctionContext

section Text

variable {context : FunctionContext} {mapping : TypeMapping}

theorem fieldLine_eq (param : FieldOption) :
    (do
      let (type, _) ← schemaCode { mapping } "" {} param.schema
      return fieldLine "" param.name param.required type.text : Except Error String) =
    (fun pieces => fieldLine "" param.name param.required (spelled pieces)) <$>
      schemaPieces { mapping } "" param.schema := by
  have text (pieces : List Piece) : (({} : Generics).fill pieces).1.text = spelled pieces := by
    obtain ⟨body, whole, text⟩ := Generics.fill_plain pieces
    rw [whole, text]
  simp only [schemaCode_eq, map_eq_pure_bind, bind_assoc, pure_bind, text]

theorem paramFields_eq : context.paramFields mapping =
    (fun types => " ".intercalate (context.pathParams.zipWith
      (fun param type => fieldLine "" param.name param.required type) (types.map spelled))) <$>
      context.pathPieces mapping := by
  simp only [FunctionContext.paramFields, FunctionContext.pathPieces, fieldLine_eq]
  generalize context.pathParams = params
  suffices each : (params.mapM fun param =>
      (fun pieces => fieldLine "" param.name param.required (spelled pieces)) <$>
        schemaPieces { mapping } "" param.schema) =
      (fun types => params.zipWith (fun param type => fieldLine "" param.name param.required type)
        (types.map spelled)) <$> params.mapM fun param =>
          schemaPieces { mapping } "" param.schema by
    rw [each]
    simp only [map_eq_pure_bind, bind_assoc, pure_bind]
  induction params with
  | nil => rfl
  | cons param rest ih =>
      rw [List.mapM_cons, ih, List.mapM_cons]
      simp only [map_eq_pure_bind, bind_assoc, pure_bind, List.map_cons, List.zipWith_cons_cons]

/-- The built-in form is the declaration around the types of the path parameters. -/
theorem defaultText_eq : context.defaultText mapping =
    (fun types => context.declare (types.map spelled)) <$> context.pathPieces mapping := by
  have params : context.paramTexts mapping = (fun types => context.pathText (types.map spelled) ++
      ((given context.queryType).map ("query: " ++ ·)).toList ++
      ((given context.bodyType).map ("data: " ++ ·)).toList) <$> context.pathPieces mapping := by
    unfold FunctionContext.paramTexts FunctionContext.pathText
    by_cases none : context.pathParams.isEmpty = true
    · have no : context.pathPieces mapping = .ok [] := by
        rw [FunctionContext.pathPieces, List.isEmpty_iff.mp none]
        rfl
      simp only [if_pos none, no]
      rfl
    · simp only [if_neg none, paramFields_eq, map_eq_pure_bind, bind_assoc, pure_bind]
  simp only [FunctionContext.defaultText, params, map_eq_pure_bind, bind_assoc, pure_bind]
  rfl

/-- A user's function that fails, or has nothing to say, leaves the built-in form. -/
theorem defaultText_of_text {hook : Option Hook} {before after : List Notice} {source : String}
    (silent : ∀ own ∈ hook, (own context).bind FunctionContext.hookText? = none)
    (ran : Yields (context.text mapping hook) before source after) :
    context.defaultText mapping = .ok source := by
  unfold FunctionContext.text at ran
  cases hook with
  | none => exact ((yields_liftExcept _ _ _ _).mp ran).1
  | some own =>
      have quiet := silent own rfl
      cases said : own context with
      | none =>
          simp only [said] at ran
          obtain ⟨_, _, -, later⟩ := (yields_bind _ _ _ _ _).mp ran
          exact ((yields_liftExcept _ _ _ _).mp later).1
      | some value =>
          rw [said, Option.bind_some] at quiet
          simp only [said, quiet] at ran
          obtain ⟨_, _, -, later⟩ := (yields_bind _ _ _ _ _).mp ran
          exact ((yields_liftExcept _ _ _ _).mp later).1

end Text

section Types

/-- A schema whose references stand for primitive types by their names alone, whose literals name no
model, and whose texts the user replaces by types that name none. -/
structure SelfContained (mapping : TypeMapping) (schema : Value) : Prop where
  primitive : ∀ ref, EntryWithin (.text "$ref", .text ref) schema →
    isPrimitiveRef ⟨mapping, []⟩ ref = true
  inert : ChoicesInert schema
  chosen : ∀ name type, PartOf [schema] (.text name) → mapping.lookup name = some type →
    NamesAmong (isBuiltin · = true) type.toList

variable {mapping : TypeMapping}

theorem SelfContained.passes (mapping : TypeMapping) : PassesDown (SelfContained mapping) where
  null :=
    { primitive := fun _ within => by cases within
      inert := fun _ _ within => by cases within
      chosen := fun name _ part => by
        have same : .text name = Value.null := part.eq_scalar
        cases same }
  item whole item member :=
    { primitive := fun ref within => whole.primitive ref (.item member within)
      inert := fun choices items within => whole.inert choices items (.item member within)
      chosen := fun name type part =>
        whole.chosen name type (part.trans (.item (.root (.head _)) member)) }
  entry whole entry member :=
    { primitive := fun ref within => whole.primitive ref (.entry member within)
      inert := fun choices items within => whole.inert choices items (.entry member within)
      chosen := fun name type part =>
        whole.chosen name type (part.trans (.entry (.root (.head _)) member)) }

theorem SelfContained.source (mapping : TypeMapping) :
    TextSource mapping (fun text => NamesAmong (isBuiltin · = true) text.toList)
      (SelfContained mapping) where
  passes := passes mapping
  chosen whole found := whole.chosen _ _ (.root (.head _)) found
  chosenRefs := by
    intro value ref type whole within found
    have primitive := whole.primitive ref within
    have target : primitiveOf ⟨mapping, []⟩ ref = type := by
      rw [primitiveOf, TypeMapping.find?, found]
      rfl
    rw [isPrimitiveRef, target, Bool.and_eq_true] at primitive
    exact among_baseType (fun _ known => known) type primitive.1
  refs := by
    intro value ref whole within foreign
    rw [whole.primitive ref within] at foreign
    cases foreign
  literals whole within := whole.inert _ _ within

/-- The type of a self-contained schema names no model. -/
theorem SelfContained.unnamed {schema : Value} (whole : SelfContained mapping schema)
    {type : String}
    {refs : List String} (shown : plainType { mapping } schema = .ok (.type type refs)) :
    modelNames type = [] := by
  obtain ⟨typed, found, same⟩ := (bind_eq_ok _ _ _).mp shown
  cases same
  have rules : TextRules fun text => NamesAmong (isBuiltin · = true) text.toList :=
    namedTexts fun _ known => known
  have known := (rules.typing (source mapping)).ofSchema _ _ _ found whole (by simp)
  refine List.eq_nil_iff_forall_not_mem.mpr fun name member => ?_
  obtain ⟨builtin, foreign⟩ := mem_modelNames known member
  cases builtin.symm.trans foreign

end Types

/-- The types of self-contained path parameters name no model. -/
theorem unnamed_pathPieces {context : FunctionContext} {mapping : TypeMapping}
    {types : List (List Piece)}
    (contained : ∀ param ∈ context.pathParams, SelfContained mapping param.schema)
    (found : context.pathPieces mapping = .ok types) :
    types.flatten.flatMap Piece.models = [] := by
  rw [List.flatMap_eq_nil_iff]
  intro piece member
  obtain ⟨pieces, listed, inside⟩ := List.mem_flatten.mp member
  obtain ⟨param, given, made⟩ := source_of_mapM found listed
  cases piece with
  | fixed text => rfl
  | type type refs =>
      obtain ⟨part, whole, shown⟩ := part_of_schemaPieces (SelfContained.passes mapping) "" _ _
        (contained param given) made inside
      exact whole.unnamed shown

/-- The models that a function imports are those that the types in its declaration name, if the
schemas of its path parameters are self-contained. -/
theorem signature_imported {options : GenerateOptions} {operation : Operation} {api : Api}
    {notices : List Notice}
    (contained : ∀ param ∈ pathParamsOf operation.urlNames operation.parameters,
      SelfContained options.mapping param.schema)
    (silent : ∀ own ∈ options.hook, ∀ context,
      (own context).bind FunctionContext.hookText? = none)
    (made : (generateApi options operation).outcome = (.ok api, notices))
    (filled : api.sourceCode ≠ "") :
    ∃ shown types, ShownSchemas.ofOperation options operation.urlNames
        (operation.queryName options.funcName) operation = .ok shown ∧
      (operation.context options shown).pathPieces options.mapping = .ok types ∧
      api.sourceCode = (operation.context options shown).declare (types.map spelled) ∧
      ∀ name, name ∈ api.typeNames ↔ name ∈ types.flatten.flatMap Piece.models ++
        modelNames (shown.bodyType.getD "") ++ modelNames (shown.responseType.getD "") := by
  rw [Noted.yields_outcome, yields_generateApi] at made
  obtain ⟨shown, source, read, sourced, rfl⟩ := made
  rw [sourceOf] at sourced
  split at sourced
  · obtain ⟨blank, -⟩ := (yields_pure _ _ _ _).mp sourced
    exact absurd blank filled
  · have built := defaultText_of_text (fun own given => silent own given _) sourced
    rw [defaultText_eq] at built
    obtain ⟨types, found, text⟩ := (map_eq_ok _ _ _).mp built
    have unnamed : types.flatten.flatMap Piece.models = [] := by
      refine unnamed_pathPieces ?_ found
      rw [Operation.context_pathParams]
      exact contained
    refine ⟨shown, types, read, found, text.symm, fun name => ?_⟩
    rw [unnamed, List.nil_append]
    exact List.mem_eraseDups

section Friends

def showFriendOf : Operation := { showFriend with path := "/friend/\x7bid\x7d" }

def writtenOptions : GenerateOptions := { schemas := friends }

theorem contained_string : SelfContained [] stringSchema where
  primitive ref within := by
    simp [stringSchema, Value.record, entryWithin_object, entryWithin_scalar] at within
  inert choices items within := by
    simp [stringSchema, Value.record, entryWithin_object, entryWithin_scalar] at within
  chosen name type _ found := by cases found

/-- Path parameters that the document says nothing about are texts. -/
theorem schema_of_undescribed {operation : Operation} (bare : operation.parameters = []) :
    ∀ param ∈ pathParamsOf operation.urlNames operation.parameters,
      param.schema = stringSchema := by
  intro param member
  rw [bare] at member
  obtain ⟨name, -, rfl⟩ := List.mem_map.mp member
  rfl

theorem contained_showFriendOf : ∀ param ∈ pathParamsOf showFriendOf.urlNames
    showFriendOf.parameters, SelfContained writtenOptions.mapping param.schema := by
  intro param member
  rw [schema_of_undescribed rfl param member]
  exact contained_string

theorem schemaPieces_string (indent : String) :
    schemaPieces {} indent stringSchema = .ok [.type "string" []] := by
  have typed : typeOf {} [] stringSchema = .ok ⟨.plain "string", [], []⟩ := by
    rw [stringSchema, Value.record, typeOf]
    rfl
  rw [schemaPieces_named rfl (fun items listed => by cases listed), plainType, typed]
  rfl

theorem pathPieces_strings {context : FunctionContext}
    (strings : ∀ param ∈ context.pathParams, param.schema = stringSchema) :
    ∃ types, context.pathPieces [] = .ok types := by
  refine ⟨_, (mapM_eq_ok _ _ (context.pathParams.map fun _ => [Piece.type "string" []])).mpr ?_⟩
  rw [List.forall₂_map_right_iff, List.forall₂_same]
  intro param member
  rw [strings param member]
  exact schemaPieces_string ""

theorem yields_sourceOf_strings {options : GenerateOptions} {context : FunctionContext}
    (unmapped : options.mapping = []) (own : options.hook = none)
    (written : options.onlyModel = false)
    (strings : ∀ param ∈ context.pathParams, param.schema = stringSchema)
    (notices : List Notice) : ∃ types : List (List Piece),
      Yields (sourceOf options context) notices (context.declare (types.map spelled)) notices := by
  obtain ⟨types, found⟩ := pathPieces_strings strings
  have text : context.defaultText options.mapping = .ok (context.declare (types.map spelled)) := by
    rw [defaultText_eq, unmapped, found]
    rfl
  rw [sourceOf, written, own]
  exact ⟨types, (yields_liftExcept _ _ _ _).mpr ⟨text, rfl⟩⟩

theorem declare_ne_empty (context : FunctionContext) (types : List String) :
    context.declare types ≠ "" := by
  intro blank
  have long := congrArg String.length blank
  simp [FunctionContext.declare] at long

theorem generateApi_showFriendOf : ∃ api,
    (generateApi writtenOptions showFriendOf).outcome = (.ok api, []) ∧ api.sourceCode ≠ "" := by
  let shown : ShownSchemas := { response := some ("User", [refTo "User"]) }
  have strings : ∀ param ∈ (showFriendOf.context writtenOptions shown).pathParams,
      param.schema = stringSchema := by
    rw [Operation.context_pathParams]
    exact schema_of_undescribed rfl
  obtain ⟨types, sourced⟩ :=
    @yields_sourceOf_strings writtenOptions _ rfl rfl rfl strings []
  have ran := (yields_generateApi writtenOptions showFriendOf _ [] []).mpr
    ⟨shown, _, showFriend_shown _ _, sourced, rfl⟩
  exact ⟨_, ran, declare_ne_empty _ _⟩

theorem signature_imported_showFriendOf : ∃ api shown, ∃ types : List (List Piece),
    (generateApi writtenOptions showFriendOf).outcome = (.ok api, []) ∧
    api.sourceCode = (showFriendOf.context writtenOptions shown).declare (types.map spelled) ∧
    ∀ name, name ∈ api.typeNames ↔ name ∈ types.flatten.flatMap Piece.models ++
      modelNames (shown.bodyType.getD "") ++ modelNames (shown.responseType.getD "") := by
  obtain ⟨api, made, filled⟩ := generateApi_showFriendOf
  obtain ⟨shown, types, -, -, source, closed⟩ := signature_imported contained_showFriendOf
    (fun _ own => by cases own) made filled
  exact ⟨api, shown, types, made, source, closed⟩

end Friends

end TypedClient

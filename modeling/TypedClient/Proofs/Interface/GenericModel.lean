import TypedClient.Proofs.Interface.Parameters
import TypedClient.Proofs.Schema.References

/-!
The interface of a generic model and its uses. A use gives the arguments of the type name in their
order; the interface declares parameters for those that its fields use, in the order of first use.
-/

namespace TypedClient

/-- The arguments that a use of a model gives it. -/
def ModelCode.arguments (code : ModelCode) : List String :=
  (Generics.ofTypeName code.typeName).arguments

theorem ModelCode.of_pieces {context : FieldContext} {ref : String} {flat : Value}
    {pieces : List Piece} {code : ModelCode} (same : ofPieces context ref flat pieces = code) :
    code.typeName = (SchemaName.parse context.mapping (schemaKey ref)).typeName ∧
      code.generics = ((Generics.inUse code.arguments []).fill pieces).2.names ∧
      code.text = interfaceText code.typeNames code.generics code.fileName code.key
        (flat.field "description") ((Generics.inUse code.arguments []).fill pieces).1.text := by
  subst same
  rw [arguments, ← Generics.ofTypeName_eq]
  unfold ofPieces
  dsimp only
  exact ⟨rfl, rfl, rfl⟩

/-- The interface of a generic model declares one parameter for each argument that its fields use,
in the order of first use. With each argument where its parameter stands the types of the fields are
those without parameters, if no type that is left as it is names a parameter. -/
theorem parameters_stand_for_arguments {context : FieldContext} {ref : String} {schema : Value}
    {code : ModelCode} (made : modelCode context ref schema = .ok code)
    (few : code.arguments.length ≤ parameterNames.length) :
    ∃ flat plain body,
      code.typeName = (SchemaName.parse context.mapping (schemaKey ref)).typeName ∧
      flatten context.schemas schema = .ok flat ∧
      interfacePieces context flat = .ok plain ∧
      interfaceCode context {} flat = .ok (body, {}) ∧ body.text = spelled plain ∧
      let used := (argumentsIn code.arguments plain).eraseDups
      let printed := plain.map (Piece.parameterized code.arguments (used.zip code.generics))
      code.generics = firstParameters used.length ∧ code.generics.length = used.length ∧
      code.text = interfaceText code.typeNames code.generics code.fileName code.key
        (flat.field "description") (spelled printed) ∧
      ((∀ piece ∈ plain, piece.argument? code.arguments = none →
          ∀ name ∈ piece.names, name ∉ code.generics) →
        printed.map (Piece.replaceNames (code.generics.zip used)) = plain) := by
  rw [modelCode_eq] at made
  simp only [bind_eq_ok, pure_eq_ok] at made
  obtain ⟨flat, flattened, plain, typed, same⟩ := made
  obtain ⟨named, generics, text⟩ := ModelCode.of_pieces same
  obtain ⟨body, unchanged, spelling⟩ := Generics.fill_plain plain
  have without : interfaceCode context {} flat = .ok (body, {}) := by
    rw [interfaceCode_eq, typed, ← unchanged]
    rfl
  obtain ⟨fields, after⟩ := Generics.fill_inUse few .nil plain
  have usable := Usable.nil.append (@argumentsIn_subset code.arguments plain)
  rw [List.nil_append] at fields after usable
  have bound := Nat.le_trans usable.length_le few
  have declared : code.generics =
      firstParameters (argumentsIn code.arguments plain).eraseDups.length := by
    rw [generics, after, Generics.names_inUse bound]
  refine ⟨flat, plain, body, named, flattened, typed, without, spelling, declared, ?_, ?_, ?_⟩
  · rw [declared, length_firstParameters bound]
  · rw [text, fields, declared]
    rfl
  · intro free
    rw [declared] at free ⊢
    exact Piece.map_replaceNames_parameterized bound
      (fun argument member => List.mem_eraseDups.mpr member) free

section Containers

/-- The schema of a container: fields with references to models. -/
def container (fields : List (String × String)) : Value :=
  .record [("properties",
    .record (fields.map fun field => (field.1, .record [("$ref", .text (refTo field.2))])))]

def containerPieces (fields : List (String × String)) : List Piece :=
  fields.flatMap fun field => [.fixed (lineStart "  " field.1 false),
    .type field.2 [refTo field.2], .fixed (lineEnd field.1 ++ "\n")]

theorem plainType_refTo {key : String} (plain : isPlainKey key = true) :
    plainType {} (.record [("$ref", .text (refTo key))]) = .ok (.type key [refTo key]) := by
  have typed : typeOf {} [] (.record [("$ref", .text (refTo key))]) =
      .ok ⟨.plain key, [refTo key], [key]⟩ := by
    refine (@typeOf_refTo {} key).trans (typeOfRef_named rfl plain fun schema held => ?_)
    cases held
  rw [plainType, typed]
  rfl

theorem schemaPieces_refTo {key indent : String} (plain : isPlainKey key = true) :
    schemaPieces {} indent (.record [("$ref", .text (refTo key))]) =
      .ok [.type key [refTo key]] := by
  rw [schemaPieces_named rfl (by intro items listed; cases listed), plainType_refTo plain]
  rfl

theorem fieldFrame_refTo (indent name key : String) :
    fieldFrame indent .null (.text name) (.record [("$ref", .text (refTo key))]) =
      .ok (lineStart indent name false, lineEnd name ++ "\n") := by
  have silent : fieldTexts ((Value.record [("$ref", .text (refTo key))]).field "description")
      (.record [("$ref", .text (refTo key))]) = .ok [] := by rfl
  have optional : isRequired .null name = .ok false := by rfl
  have uncommented : docComment indent [] = "" := by rfl
  simp only [fieldFrame, silent, optional, bind, Except.bind, uncommented, String.empty_append]
  rfl

theorem fieldsPieces_container {fields : List (String × String)}
    (plain : ∀ field ∈ fields, isPlainKey field.2 = true) :
    fieldsPieces {} "  " .null (fields.map fun field =>
      (.text field.1, .record [("$ref", .text (refTo field.2))])) =
      .ok (containerPieces fields) := by
  induction fields with
  | nil =>
      rw [List.map_nil, fieldsPieces]
      rfl
  | cons field rest ih =>
      rw [List.map_cons, fieldsPieces, schemaPieces_refTo (plain field (by simp)),
        fieldFrame_refTo, ih fun other member => plain other (by simp [member])]
      rfl

theorem interfacePieces_container {fields : List (String × String)}
    (plain : ∀ field ∈ fields, isPlainKey field.2 = true) :
    interfacePieces {} (container fields) = .ok (containerPieces fields) := by
  have listed : declaredFields ((container fields).field "properties") =
      .ok (fields.map fun field => (.text field.1, .record [("$ref", .text (refTo field.2))])) := by
    cases fields with
    | nil => rfl
    | cons field rest => exact congrArg (fun later => Except.ok (_ :: later)) List.map_map
  have optional : (container fields).field "required" = .null := by rfl
  rw [interfacePieces, listed, optional]
  exact fieldsPieces_container plain

theorem flatten_container (fields : List (String × String)) :
    flatten [] (container fields) = .ok (container fields) := by
  rw [flatten, container, Value.record, flattenIn]
  rfl

def containerCode (ref : String) (fields : List (String × String)) : ModelCode :=
  .ofPieces {} ref (container fields) (containerPieces fields)

theorem modelCode_container (ref : String) {fields : List (String × String)}
    (plain : ∀ field ∈ fields, isPlainKey field.2 = true) :
    modelCode {} ref (container fields) = .ok (containerCode ref fields) := by
  have flat : flatten ({} : FieldContext).schemas (container fields) = .ok (container fields) :=
    flatten_container fields
  have typed := interfacePieces_container plain
  rw [modelCode_eq, flat]
  simp only [bind, Except.bind, typed]
  rfl

def pairFields : List (String × String) := [("second", "B"), ("first", "A"), ("more", "C")]

def pair : ModelCode := containerCode "Pair«A,B»" pairFields

theorem parameters_stand_for_arguments_pair :
    modelCode {} "Pair«A,B»" (container pairFields) = .ok pair ∧
      pair.arguments = ["A", "B"] ∧ ["A", "B"].length ≤ parameterNames.length ∧
      pair.generics = ["T", "E"] ∧
      ∃ printed, pair.text = interfaceText ["C"] ["T", "E"] "Pair" "Pair«A,B»" .null
          (spelled printed) ∧
        printed.map (Piece.replaceNames [("T", "B"), ("E", "A")]) = containerPieces pairFields := by
  have plain : ∀ field ∈ pairFields, isPlainKey field.2 = true := by decide
  have made : modelCode {} "Pair«A,B»" (container pairFields) = .ok pair :=
    modelCode_container "Pair«A,B»" plain
  have given : pair.arguments = ["A", "B"] := by decide +kernel
  have few : ["A", "B"].length ≤ parameterNames.length := by decide
  obtain ⟨flat, pieces, body, -, flattened, typed, -, -, declared, -, text, back⟩ :=
    parameters_stand_for_arguments made (given ▸ few)
  cases (flatten_container pairFields).symm.trans flattened
  cases (interfacePieces_container plain).symm.trans typed
  have used : (argumentsIn ["A", "B"] (containerPieces pairFields)).eraseDups = ["B", "A"] := by
    decide +kernel
  have foreign : pair.typeNames = ["C"] := by decide +kernel
  have file : pair.fileName = "Pair" := by decide +kernel
  have key : pair.key = "Pair«A,B»" := by decide +kernel
  have silent : (container pairFields).field "description" = .null := by rfl
  have names : pair.generics = ["T", "E"] := by
    rw [declared, given, used]
    rfl
  rw [foreign, file, key, silent, names, given, used] at text
  rw [given, used, names] at back
  refine ⟨made, given, few, names, _, text, back ?_⟩
  decide +kernel

/-- The parameters need not be those of the arguments in their order: arguments that are used in
another order, not at all, twice in the type name or beside a model with the name of a parameter. -/
theorem parameters_miss_arguments :
    (∃ code printed, modelCode {} "Pair«A,B»" (container [("second", "B"), ("first", "A")]) =
        .ok code ∧
      code.arguments = ["A", "B"] ∧
      code.text = interfaceText [] ["T", "E"] "Pair" "Pair«A,B»" .null (spelled printed) ∧
      printed = [.fixed "  second?: ", .type "T" [refTo "B"], .fixed ";\n",
        .fixed "  first?: ", .type "E" [refTo "A"], .fixed ";\n"] ∧
      printed.map (Piece.replaceNames (["T", "E"].zip ["A", "B"])) ≠
        containerPieces [("second", "B"), ("first", "A")]) ∧
    (∃ code, modelCode {} "Response«User»" (container []) = .ok code ∧
      code.arguments = ["User"] ∧ code.generics = []) ∧
    (∃ code, modelCode {} "Pair«A,A»" (container [("first", "A")]) = .ok code ∧
      code.arguments = ["A", "A"] ∧ code.generics = ["T"]) ∧
    (∃ code printed, modelCode {} "Box«User»" (container [("tag", "T"), ("data", "User")]) =
        .ok code ∧
      code.arguments = ["User"] ∧
      code.text = interfaceText [] ["T"] "Box" "Box«User»" .null (spelled printed) ∧
      printed = [.fixed "  tag?: ", .type "T" [refTo "T"], .fixed ";\n",
        .fixed "  data?: ", .type "T" [refTo "User"], .fixed ";\n"] ∧
      printed.map (Piece.replaceNames (["T"].zip ["User"])) ≠
        containerPieces [("tag", "T"), ("data", "User")]) := by
  refine ⟨⟨_, _, modelCode_container _ (by decide), ?_, ?_, rfl, ?_⟩,
    ⟨_, modelCode_container _ (by decide), ?_, ?_⟩,
    ⟨_, modelCode_container _ (by decide), ?_, ?_⟩,
    ⟨_, _, modelCode_container _ (by decide), ?_, ?_, rfl, ?_⟩⟩
  all_goals decide +kernel

end Containers

end TypedClient

import TypedClient.Proofs.Ignore.Imported
import TypedClient.Proofs.Ignore.Spine
import TypedClient.Proofs.Ignore.Steady
import TypedClient.Proofs.Interface.Renaming
import TypedClient.Proofs.Schema.Texts
import TypedClient.Proofs.TypeExpr.Named

namespace TypedClient

open TypeExpr

section Stripped

variable {Known : String → Prop} {ignores : List Ignore}

structure NamesPlainly (Known : String → Prop) (text : List Char) : Prop where
  unquoted : ∀ c ∈ text, c ≠ '\''
  among : NamesAmong Known text

namespace NamesPlainly

variable {front back : List Char} {body : String}

theorem cut {c : Char} (apart : Naming.isFieldChar c = false)
    (whole : NamesPlainly Known (front ++ c :: back)) :
    NamesPlainly Known front ∧ NamesPlainly Known back := by
  obtain ⟨left, right⟩ := whole.among.split apart whole.unquoted
  have unquoted := whole.unquoted
  simp only [List.forall_mem_append, List.forall_mem_cons] at unquoted
  exact ⟨⟨unquoted.1, left⟩, ⟨unquoted.2.2, right⟩⟩

theorem marked (plain : NamesPlainly Known body.toList) (depth : Nat) :
    NamesPlainly Known (body ++ TypeNode.arraySuffix depth).toList := by
  refine ⟨?_, among_arraySuffix plain.among depth⟩
  rw [String.toList_append, List.forall_mem_append]
  exact ⟨plain.unquoted, written_arraySuffix (by simp [WrittenIn]) depth⟩

theorem unmarked {depth : Nat}
    (whole : NamesPlainly Known (body ++ TypeNode.arraySuffix depth).toList) :
    NamesPlainly Known body.toList := by
  cases depth with
  | zero => simpa [TypeNode.arraySuffix] using whole
  | succ depth =>
      have opened : (body ++ TypeNode.arraySuffix (depth + 1)).toList =
          body.toList ++ '[' :: (']' :: (TypeNode.arraySuffix depth).toList) := by
        simp [TypeNode.arraySuffix, List.replicate_succ]
      rw [opened] at whole
      exact (whole.cut (by decide)).1

theorem first {name : String} {first : TypeNode} {rest : List TypeNode} {depth : Nat}
    (asIs : (TypeNode.mk name (first :: rest) depth).printsAsIs = true)
    (whole : NamesPlainly Known (TypeNode.mk name (first :: rest) depth).toText.toList) :
    NamesPlainly Known first.toText.toList := by
  rw [toText_eq asIs] at whole
  have body := whole.unmarked
  have opened : (name ++ (if (first :: rest).isEmpty then ""
      else "<" ++ ", ".intercalate (TypeNode.renderAll id (first :: rest)) ++ ">")).toList =
      name.toList ++ '<' :: (first.toText.toList ++
        (((TypeNode.renderAll id rest).flatMap fun text => ',' :: ' ' :: text.toList) ++
          ['>'])) := by
    rw [TypeNode.renderAll, render_id]
    simp only [List.isEmpty_cons, Bool.false_eq_true, if_false, String.toList_append, toList_joined]
    simp
  rw [opened] at body
  have inner := (body.cut (by decide)).2
  cases rest with
  | nil =>
      simp only [TypeNode.renderAll, List.flatMap_nil, List.nil_append] at inner
      exact (inner.cut (by decide)).1
  | cons second rest =>
      simp only [TypeNode.renderAll, List.flatMap_cons, List.cons_append] at inner
      exact (inner.cut (by decide)).1

theorem of_plain {text : String} (plain : isPlainType text = true)
    (among : NamesAmong Known text.toList) : NamesPlainly Known text.toList := by
  refine ⟨?_, among⟩
  rintro c member rfl
  rw [isPlainType_of_mem member (by decide)] at plain
  cases plain

end NamesPlainly

theorem names_stripNode {extra : Nat} {node left : TypeNode} (asIs : node.printsAsIs = true)
    (whole : NamesPlainly Known node.toText.toList)
    (stripped : stripNode ignores extra node = some left) :
    NamesPlainly Known left.toText.toList := by
  obtain ⟨part, inside, more, rfl⟩ := stripNode_mem_spine stripped
  let Kept (part : TypeNode) := part.printsAsIs = true ∧ NamesPlainly Known part.toText.toList
  obtain ⟨own, body⟩ : Kept part := by
    refine TypeNode.forall_spine (fun name first rest depth own => ?_) ⟨asIs, whole⟩ part inside
    refine ⟨TypeNode.printsAsIs_spine own.1 first ?_, own.2.first own.1⟩
    simp [TypeNode.spine, first.mem_spine_self]
  obtain ⟨name, args, depth⟩ := part
  rw [toText_eq own] at body
  rw [TypeNode.deepen, toText_eq ((TypeNode.printsAsIs_deepen _ more).trans own)]
  exact body.unmarked.marked _

/-- What is left of a type that is read as it stands names nothing else. -/
theorem among_stripIgnored {text : String} (lasting : Lasting text)
    (among : NamesAmong Known text.toList) :
    NamesAmong Known (stripIgnored ignores text).toList := by
  rw [stripIgnored]
  split
  · exact among
  · rename_i asked
    have plain : isPlainType text = true := by
      simp only [Bool.or_eq_true, Bool.not_eq_true', not_or, Bool.not_eq_false] at asked
      exact asked.2
    obtain ⟨node, settled, asIs, rfl⟩ := lasting plain
    rw [parse_toText settled asIs]
    cases stripped : stripNode ignores 0 node with
    | none => exact NamesAmong.nil
    | some left => exact (names_stripNode asIs (.of_plain plain among) stripped).among

theorem among_allowedType {context : FieldContext} {text : String}
    (builtin : ∀ name, isBuiltin name = true → Known name)
    (lasting : context.ignores ≠ [] → Lasting text) (among : NamesAmong Known text.toList) :
    NamesAmong Known (allowedType context text).toList := by
  rw [allowedType]
  split
  · exact among
  · rename_i filled
    dsimp only
    split
    · exact among_baseType builtin "any" (by decide)
    · exact among_stripIgnored (lasting (by simpa using filled)) among

end Stripped

section Named

/-- No reference and no literal in a value brings a name of some parameters. If names are left out,
the types that it refers to are read as they stand. -/
structure UncapturedValue (parameters : List String) (context : FieldContext) (value : Value) :
    Prop where
  named : NamedValue context.mapping (· ∉ parameters) value
  steady : context.ignores ≠ [] → SteadyValue context.mapping (fun _ => True) value

/-- Neither the user's choices nor the collection bring a name of some parameters. -/
structure UncapturedContext (parameters : List String) (context : FieldContext) : Prop where
  chosen : ∀ choice ∈ context.mapping, NamesAmong (· ∉ parameters) choice.2.toList ∧
    (context.ignores ≠ [] → Steady (fun _ => True) choice.2)
  schemas : ∀ entry ∈ context.schemas, UncapturedValue parameters context entry.2

variable {context : FieldContext} {parameters : List String}

theorem UncapturedValue.hereditary (parameters : List String) (context : FieldContext) :
    Hereditary (UncapturedValue parameters context) where
  scalar s := ⟨(NamedValue.hereditary _ _).scalar s, fun _ => (SteadyValue.hereditary _ _).scalar s⟩
  item whole item member :=
    ⟨(NamedValue.hereditary _ _).item whole.named item member,
      fun filled => (SteadyValue.hereditary _ _).item (whole.steady filled) item member⟩
  entry whole entry member :=
    ⟨(NamedValue.hereditary _ _).entry whole.named entry member,
      fun filled => (SteadyValue.hereditary _ _).entry (whole.steady filled) entry member⟩

theorem UncapturedContext.named (foreign : UncapturedContext parameters context)
    (few : parameters ⊆ parameterNames) :
    NamedContext context.toTypeContext (· ∉ parameters) where
  builtin name builtin inside := by
    have none : ∀ parameter ∈ parameterNames, isBuiltin parameter = false := by decide
    rw [none name (few inside)] at builtin
    cases builtin
  chosen choice member := (foreign.chosen choice member).1
  schemas entry member := (foreign.schemas entry member).named

theorem UncapturedContext.steady (foreign : UncapturedContext parameters context)
    (filled : context.ignores ≠ []) : SteadyContext context.toTypeContext (fun _ => True) where
  record := trivial
  chosen choice member := (foreign.chosen choice member).2 filled
  schemas entry member := (foreign.schemas entry member).steady filled

/-- The types of fields name no parameter, unless they are replaced. -/
theorem UncapturedContext.rules (foreign : UncapturedContext parameters context)
    (few : parameters ⊆ parameterNames) :
    CodeRules context (UncapturedValue parameters context) (fun _ => True)
      (fun code => ∀ name ∈ code.typeNames, name ∉ parameters) where
  hereditary := UncapturedValue.hereditary parameters context
  empty := by simp
  append left right := by
    intro name member
    rcases List.mem_append.mp member with own | own
    · exact left name own
    · exact right name own
  text holds _ := holds
  named := by
    intro generics schema code later _ whole ran
    refine ⟨fun name member => ?_, trivial⟩
    rw [namedType_eq] at ran
    obtain ⟨piece, shown, printed⟩ := (map_eq_ok _ _ _).mp ran
    obtain ⟨typed, found, same⟩ := (bind_eq_ok _ _ _).mp shown
    cases same
    have named := foreign.named few
    have among := named.typeOf whole.named found
    have lasting (filled : context.ignores ≠ []) : Lasting typed.type.render :=
      ((foreign.steady filled).typeOf (whole.steady filled) found).lasting
    have left := among_allowedType named.builtin lasting among
    have own : code = (generics.print (.type _ typed.refs)).1 := congrArg Prod.fst printed.symm
    rw [own] at member
    exact (mem_modelNames left (generics.typeNames_print _ _ member)).1

/-- However the fields of an interface are printed, their code names no parameter. -/
theorem UncapturedContext.free_of_pieces (foreign : UncapturedContext parameters context)
    (few : parameters ⊆ parameterNames) {schema flat : Value} {pieces : List Piece}
    (whole : UncapturedValue parameters context schema)
    (flattened : flatten context.schemas schema = .ok flat)
    (typed : interfacePieces context flat = .ok pieces) (generics : Generics) :
    ∀ name ∈ (generics.fill pieces).1.typeNames, name ∉ parameters := by
  have rules := foreign.rules few
  have given := propertiesHave_flattenIn rules.hereditary _ _ _ foreign.schemas whole flattened
  have coded : interfaceCode context generics flat = .ok (generics.fill pieces) := by
    rw [interfaceCode_eq, typed]
    rfl
  obtain ⟨entries, read, fields⟩ := (bind_eq_ok _ _ _).mp coded
  exact (rules.fieldsCode _ _ generics _ entries _ trivial
    (CodeRules.declared_of_propertiesHave given read) fields).1

end Named

section Filled

variable {arguments asked : List String}

def Piece.keptModels (arguments : List String) (table : List (String × String)) :
    Piece → List String
  | fixed _ => []
  | type text refs =>
    if (Generics.answer arguments table (text, !refs.isEmpty)).isSome then [] else modelNames text

theorem Generics.typeNames_print_type (generics : Generics) (text : String) (refs : List String) :
    (generics.print (.type text refs)).1.typeNames =
      if (generics.respond (text, !refs.isEmpty)).1.isSome then [] else modelNames text := by
  rw [print, respond]
  cases generics.substitute text (!refs.isEmpty) with
  | none => rfl
  | some answer => rfl

theorem Generics.typeNames_fill_admitted (asked : List String) (pieces : List Piece) :
    ((inUse arguments (admitted asked)).fill pieces).1.typeNames =
      pieces.flatMap (Piece.keptModels arguments
        (parameterTable (admitted (asked ++ argumentsIn arguments pieces)))) := by
  induction pieces generalizing asked with
  | nil => rfl
  | cons piece rest ih =>
      have after := (@print_admitted arguments asked piece).2
      have others := ih (asked ++ argumentsIn arguments [piece])
      rw [List.append_assoc, ← argumentsIn_append, List.singleton_append] at others
      have own : ((inUse arguments (admitted asked)).print piece).1.typeNames =
          piece.keptModels arguments
            (parameterTable (admitted (asked ++ argumentsIn arguments (piece :: rest)))) := by
        cases piece with
        | fixed text => rfl
        | type text refs =>
            have first : argumentsIn arguments (.type text refs :: rest) =
                argumentsAsked arguments [(text, !refs.isEmpty)] ++ argumentsIn arguments rest := by
              rw [← List.singleton_append, argumentsIn_append, argumentsIn_eq [.type text refs]]
              rfl
            rw [typeNames_print_type, respond_admitted, Piece.keptModels, first,
              ← List.append_assoc, answer_admitted (List.subset_append_right asked _)]
      simp only [fill, after, Code.append, own, others, List.flatMap_cons]

end Filled

theorem mem_modelNames_iff {type name : String} : name ∈ modelNames type ↔
    name ∈ namesFrom [] (dropLiterals type.toList) ∧ isBuiltin name = false := by
  simp [modelNames, isBuiltin, List.mem_eraseDups]

theorem mem_importedNames {fileName name : String} {generics typeNames : List String} :
    name ∈ importedNames fileName generics typeNames ↔
      name ∈ typeNames ∧ name ≠ fileName ∧ name ∉ generics ∧ startsLower name = false := by
  simp [importedNames, List.mem_eraseDups, and_assoc]

/-- In the interface of a generic model no type that is left as it is names a declared parameter, if
no reference, literal or choice of the document brings the name of one. So a model that a field
names is imported, is the interface itself, or has a parameter of its own. -/
theorem parameters_capture_nothing {context : FieldContext} {ref : String} {schema : Value}
    {code : ModelCode} (made : modelCode context ref schema = .ok code)
    (foreign : UncapturedContext code.generics context)
    (whole : UncapturedValue code.generics context schema) :
    ∃ flat plain recorded,
      flatten context.schemas schema = .ok flat ∧ interfacePieces context flat = .ok plain ∧
      IsRenaming code.arguments recorded ∧ code.generics = recorded.map Prod.snd ∧
      code.text = interfaceText code.typeNames code.generics code.fileName code.key
        (flat.field "description")
        (spelled (plain.map (Piece.parameterized code.arguments recorded))) ∧
      ∀ text refs, .type text refs ∈ plain →
        let printed := (Piece.parameterized code.arguments recorded (.type text refs)).text
        (∃ argument parameter depth, (argument, parameter) ∈ recorded ∧
          text = argument ++ TypeNode.arraySuffix depth ∧
          printed = parameter ++ TypeNode.arraySuffix depth) ∨
        printed = text ∧
          (∀ name ∈ namesFrom [] (dropLiterals text.toList), name ∉ code.generics) ∧
          ∀ name ∈ modelNames text, startsLower name = false →
            name = code.fileName ∨ name ∈ code.typeNames := by
  obtain ⟨flat, plain, -, flattened, typed, declared, text, imported⟩ :=
    ModelCode.exists_pieces made
  have faithful := isRenaming_admitted (@argumentsIn_subset code.arguments plain)
  have few : code.generics ⊆ parameterNames := by
    rw [declared]
    exact faithful.names.subset
  have free := foreign.free_of_pieces few whole flattened typed (Generics.inUse code.arguments [])
  have models : ((Generics.inUse code.arguments []).fill plain).1.typeNames = _ :=
    @Generics.typeNames_fill_admitted code.arguments [] plain
  rw [List.nil_append] at models
  refine ⟨flat, plain, _, flattened, typed, faithful, declared, text, fun type refs member => ?_⟩
  dsimp only
  rw [Piece.text_parameterized]
  cases answered : Generics.answer code.arguments _ (type, !refs.isEmpty) with
  | some printed =>
      obtain ⟨argument, parameter, depth, -, known, built, rfl, -⟩ := renames_of_answer answered
      exact .inl ⟨argument, parameter, depth, known, built, rfl⟩
  | none =>
      have kept : ∀ name ∈ modelNames type,
          name ∈ ((Generics.inUse code.arguments []).fill plain).1.typeNames := by
        intro name named
        rw [models]
        refine List.mem_flatMap.mpr ⟨.type type refs, member, ?_⟩
        rw [Piece.keptModels, answered]
        exact named
      refine .inr ⟨rfl, fun name inside captured => ?_, fun name named upper => ?_⟩
      · have other : isBuiltin name = false :=
          Bool.eq_false_iff.mpr fun builtin => (foreign.named few).builtin name builtin captured
        exact free name (kept name (mem_modelNames_iff.mpr ⟨inside, other⟩)) captured
      · rw [imported, mem_importedNames]
        exact or_iff_not_imp_left.mpr fun apart =>
          ⟨kept name named, apart, free name (kept name named), upper⟩

section Pair

theorem uncaptured_pair : UncapturedValue ["T", "E"] {} (container pairFields) where
  named := by
    constructor
    · intro ref within _
      have leads : ∃ key, isPlainKey key = true ∧ key ∉ ["T", "E"] ∧ ref = refTo key := by
        simp [container, pairFields, Value.record, entryWithin_object, entryWithin_scalar] at within
        rcases within with rfl | rfl | rfl
        · exact ⟨"B", by decide, by decide, rfl⟩
        · exact ⟨"A", by decide, by decide, rfl⟩
        · exact ⟨"C", by decide, by decide, rfl⟩
      obtain ⟨key, plain, apart, rfl⟩ := leads
      rw [parse_of_plain plain (schemaKey_refTo plain)]
      exact NamesAmong.name (isName_of_plain plain) apart
    · intro choices items within
      simp [container, pairFields, Value.record, entryWithin_object, entryWithin_scalar] at within
  steady filled := absurd rfl filled

theorem parameters_capture_nothing_pair :
    modelCode {} "Pair«A,B»" (container pairFields) = .ok pair ∧
      pair.generics = ["T", "E"] ∧ UncapturedContext ["T", "E"] {} ∧
      UncapturedValue ["T", "E"] {} (container pairFields) ∧ "C" ∈ pair.typeNames := by
  have plain : ∀ field ∈ pairFields, isPlainKey field.2 = true := by decide
  have made : modelCode {} "Pair«A,B»" (container pairFields) = .ok pair :=
    modelCode_container "Pair«A,B»" plain
  have names : pair.generics = ["T", "E"] := by decide +kernel
  have foreign : UncapturedContext ["T", "E"] {} :=
    ⟨fun _ none => absurd none List.not_mem_nil, fun _ none => absurd none List.not_mem_nil⟩
  obtain ⟨flat, pieces, recorded, flattened, typed, faithful, -, -, each⟩ :=
    parameters_capture_nothing made (names ▸ foreign) (names ▸ uncaptured_pair)
  cases (flatten_container pairFields).symm.trans flattened
  cases (interfacePieces_container plain).symm.trans typed
  have member : Piece.type "C" [refTo "C"] ∈ containerPieces pairFields := by decide
  have given : pair.arguments = ["A", "B"] := by decide +kernel
  refine ⟨made, names, foreign, uncaptured_pair, ?_⟩
  rcases each _ _ member with ⟨argument, parameter, depth, known, built, -⟩ | ⟨-, -, models⟩
  · have listed := faithful.known _ known
    rw [given] at listed
    have first := congrArg (·.toList.head?) built
    simp only [List.mem_cons, List.not_mem_nil, or_false] at listed
    rcases listed with rfl | rfl
    · simp at first
    · simp at first
  · have file : pair.fileName = "Pair" := by decide +kernel
    rcases models "C" (by decide +kernel) (by decide) with own | imported
    · rw [file] at own
      exact absurd own (by decide)
    · exact imported

end Pair

end TypedClient

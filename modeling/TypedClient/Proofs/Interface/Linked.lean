import TypedClient.Proofs.Closure.Edges
import TypedClient.Proofs.Interface.Fields
import TypedClient.Proofs.Schema.References

namespace TypedClient

variable {context : FieldContext} {schemas : Schemas}

/-- Code refers to models only, and names those that it refers to. -/
structure Linked (schemas : Schemas) (refs names : List String) : Prop where
  models : ∀ ref ∈ refs, IsModelKey schemas (schemaKey ref)
  named : ∀ name ∈ names, name ∈ refs.map schemaKey

theorem Linked.append {first second left right : List String}
    (front : Linked schemas first left) (back : Linked schemas second right) :
    Linked schemas (first ++ second) (left ++ right) := by
  constructor
  · intro ref member
    exact (List.mem_append.mp member).elim (front.models ref) (back.models ref)
  · intro name member
    rw [List.map_append]
    exact List.mem_append.mpr ((List.mem_append.mp member).imp (front.named name)
      (back.named name))

theorem modelNames_empty : modelNames "" = [] := by
  simp [modelNames, TypeExpr.dropLiterals, TypeExpr.namesFrom]

theorem Linked.nil : Linked schemas [] [] := ⟨by simp, by simp⟩

theorem Linked.unnamed : Linked schemas [] (modelNames "") := by
  rw [modelNames_empty]
  exact .nil

theorem Linked.appendAll {α : Type} {parts : List α} {refs names : α → List String}
    (each : ∀ part ∈ parts, Linked schemas (refs part) (names part)) :
    Linked schemas (parts.flatMap refs) (parts.flatMap names) := by
  constructor
  · intro ref member
    obtain ⟨part, inside, own⟩ := List.mem_flatMap.mp member
    exact (each part inside).models ref own
  · intro name member
    obtain ⟨part, inside, own⟩ := List.mem_flatMap.mp member
    obtain ⟨ref, place, rfl⟩ := List.mem_map.mp ((each part inside).named name own)
    exact List.mem_map_of_mem (List.mem_flatMap.mpr ⟨part, inside, place⟩)

theorem Linked.subset {refs more names fewer : List String} (linked : Linked schemas refs names)
    (models : ∀ ref ∈ more, IsModelKey schemas (schemaKey ref)) (wider : refs ⊆ more)
    (narrower : fewer ⊆ names) : Linked schemas more fewer :=
  ⟨models, fun name member => List.map_subset _ wider (linked.named name (narrower member))⟩

/-- A collection whose references lead to schemas of it, with plain keys, with choices that name
no model, and without cycles in what is written out in place. -/
structure Referenced (schemas : Schemas) : Prop where
  keys : ∀ entry ∈ schemas, isPlainKey entry.1 = true
  sound : ∀ entry ∈ schemas, Sound schemas entry.2
  acyclic : NoInPlaceCycle schemas

theorem Referenced.typeOf {context : TypeContext} (referenced : Referenced context.schemas)
    (unmapped : context.mapping = []) {schema : Value} {typed : Typed}
    (sound : Sound context.schemas schema)
    (ran : typeOf context context.schemas schema = .ok typed) :
    ModelsOnly context.schemas typed :=
  (ModelsOnly.typing context unmapped referenced.keys referenced.sound referenced.acyclic).ofSchema
    _ _ _ ran sound (.start _ _)

theorem linked_of_modelsOnly {typed : Typed} (only : ModelsOnly schemas typed) :
    Linked schemas typed.refs (modelNames typed.type.render) := by
  refine ⟨only.models, fun name member => ?_⟩
  obtain ⟨known | own, foreign⟩ := mem_modelNames only.named member
  · rw [known] at foreign
    cases foreign
  · exact own

theorem substitute_none {generics : Generics} (closed : generics.arguments = []) (type : String)
    (byReference : Bool) : generics.substitute type byReference = none := by
  have none : generics.argumentOf? type = none := by
    simp [Generics.argumentOf?, closed]
  rw [Generics.substitute, none]

theorem Linked.rules (referenced : Referenced context.schemas) (unmapped : context.mapping = [])
    (whole : context.ignores = []) :
    CodeRules context (Sound context.schemas) (fun generics => generics.arguments = [])
      (fun code => Linked context.schemas code.refs code.typeNames) where
  hereditary := Sound.hereditary _
  empty := .nil
  append left right := left.append right
  text := fun holds _ => ⟨holds.models, holds.named⟩
  named := by
    intro generics schema code later closed sound ran
    unfold namedType at ran
    obtain ⟨typed, found, ran⟩ := (bind_eq_ok _ _ _).mp ran
    simp only [whole, List.isEmpty_nil, if_true, substitute_none closed] at ran
    cases ran
    exact ⟨linked_of_modelsOnly (referenced.typeOf unmapped sound found), closed⟩

theorem linked_queryCode (referenced : Referenced context.schemas)
    (unmapped : context.mapping = []) (whole : context.ignores = []) {name : String}
    {fields : List FieldOption} {code : Code}
    (sound : ∀ field ∈ fields, Sound context.schemas field.schema)
    (ran : queryCode context name fields = .ok code) :
    Linked context.schemas code.refs code.typeNames := by
  obtain ⟨parts, each, refs, names⟩ :=
    (Linked.rules referenced unmapped whole).queryCode rfl sound ran
  have all := Linked.appendAll each
  rw [refs, names]
  exact all.subset all.models (List.Subset.refl _) fun name member => List.mem_eraseDups.mp member

/-- The interface of a model refers to models, and imports those that it refers to. -/
theorem linked_modelCode (referenced : Referenced context.schemas) (unmapped : context.mapping = [])
    (whole : context.ignores = []) {key : String} {schema : Value} {code : ModelCode}
    (member : (key, schema) ∈ context.schemas) (ran : modelCode context key schema = .ok code) :
    Linked context.schemas code.refs code.typeNames := by
  have plain := referenced.keys _ member
  have closed : (Generics.ofTypeName
      (SchemaName.parse context.mapping (schemaKey key)).typeName).arguments = [] := by
    have leads := schemaKey_of_plain plain
    rw [leads, unmapped, parse_of_plain plain leads, arguments_of_plain plain]
  obtain ⟨body, linked, refs, names⟩ := (Linked.rules referenced unmapped whole).modelCode
    referenced.sound (referenced.sound _ member) closed ran
  rw [refs, names]
  refine linked.subset linked.models (List.Subset.refl _) fun name inside => ?_
  exact List.mem_of_mem_filter (List.mem_eraseDups.mp inside)

end TypedClient

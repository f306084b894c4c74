import TypedClient.Proofs.Meaning.RoundTrip
import TypedClient.Proofs.Meaning.Schema

namespace TypedClient

/-- How types are joined. -/
def Connective.form : Connective → List PropertyType → PropertyType
  | union => .union
  | intersection => .intersection

theorem render_form (connective : Connective) (types : List PropertyType) :
    (connective.form types).render =
      connective.separator.intercalate (types.map PropertyType.render) := by
  cases connective with
  | union => exact render_union types
  | intersection => exact render_intersection types

theorem variantsUnder_of_list {entries : Entries} {name : String} {variants : List Value}
    (held : Entries.field entries name = .list variants) (given : variants ≠ []) :
    variantsUnder? entries name = some variants := by
  obtain ⟨first, rest, rfl⟩ := List.exists_cons_of_ne_nil given
  cases found : Entries.find? entries name with
  | none =>
      rw [Entries.field, found] at held
      cases held
  | some value =>
      rw [Entries.field, found, Option.getD_some] at held
      rw [variantsUnder?, found, held]

theorem typeOf_variants {context : TypeContext} {remaining : Schemas} {entries : Entries}
    {name : String} {connective : Connective} {variants : List Value}
    (only : HasOnly entries [name]) (joins : (name, connective) ∈ connectives)
    (found : variantsUnder? entries name = some variants) :
    typeOf context remaining (.object entries) =
      (·.combine connective.form) <$> typesOf context remaining variants := by
  simp only [connectives, List.mem_cons, Prod.mk.injEq, List.not_mem_nil, or_false] at joins
  rcases joins with ⟨rfl, rfl⟩ | ⟨rfl, rfl⟩ | ⟨rfl, rfl⟩
  · exact typeOf_allOf (only.own (by decide)) found
  · exact typeOf_oneOf (only.own (by decide)) (only.variantsUnder (by decide) (by decide)) found
  · exact typeOf_anyOf (only.own (by decide)) (only.variantsUnder (by decide) (by decide))
      (only.variantsUnder (by decide) (by decide)) found

def Emits (found : Except Error Typed) (tree : TypeTree) : Prop :=
  ∃ typed, found = .ok typed ∧ typed.type.render = tree.spell

section Forms

variable {context : TypeContext} {remaining : Schemas} {entries : Entries} {tree : TypeTree}

theorem emits_primitive {name type : String} (unmapped : context.mapping = [])
    (only : HasOnly entries ["type"]) (held : Entries.field entries "type" = .text name)
    (known : baseMapping.lookup name = some type) :
    Emits (typeOf context remaining (.object entries)) (.named type []) := by
  have other : name ≠ "array" := by
    rintro rfl
    cases known
  have choices := only.field "enum" (by decide) (by decide)
  have extra := only.field "additionalProperties" (by decide) (by decide)
  have form : SchemaForm.ofEntries entries = .named (.text name) := by
    simp [SchemaForm.ofEntries, held, choices, extra, Value.isText, Value.isNull, Value.isTrue,
      Value.isObject, Scalar.isTrue, other]
  rw [typeOf_plain (only.plain (by decide)), form, typeOfForm, unmapped]
  refine ⟨_, rfl, ?_⟩
  change (baseMapping.lookup name).getD "any" = type
  rw [known, Option.getD_some]

theorem emits_anything (only : HasOnly entries []) :
    Emits (typeOf context remaining (.object entries)) .any := by
  have type := only.field "type" (by decide) (by decide)
  have choices := only.field "enum" (by decide) (by decide)
  have properties := only.field "properties" (by decide) (by decide)
  have extra := only.field "additionalProperties" (by decide) (by decide)
  have form : SchemaForm.ofEntries entries = .named .null := by
    simp [SchemaForm.ofEntries, type, choices, properties, extra, Value.isText, Value.isNull,
      Value.isTrue, Value.isObject, Scalar.isTrue]
  rw [typeOf_plain (only.plain (by decide)), form]
  exact ⟨_, rfl, rfl⟩

theorem ofEnum_texts (texts : List String) :
    PropertyType.ofEnum (.texts texts) =
      .ok (.literals (texts.map fun text => (TypeTree.literal text).spell).eraseDups) := by
  have same : (texts.map Value.text).map literalText =
      texts.map fun text => (TypeTree.literal text).spell := by
    rw [List.map_map]
    rfl
  rw [← same]
  rfl

theorem emits_choices {texts : List String} (only : HasOnly entries ["type", "enum"])
    (fits : TypeFits entries "string")
    (held : Entries.field entries "enum" = .texts texts) (given : texts ≠ []) :
    Emits (typeOf context remaining (.object entries)) (.joined .union (texts.map .literal)) := by
  have form : SchemaForm.ofEntries entries = .enum (.texts texts) := by
    rcases fits with type | type
    · simp [SchemaForm.ofEntries, type, held, Value.texts, Value.isText, Value.isTrue, given]
    · simp [SchemaForm.ofEntries, type, held, Value.texts, Value.isText, Value.isTrue, given]
  rw [typeOf_plain (only.plain (by decide)), form, typeOfForm, ofEnum_texts]
  refine ⟨_, rfl, ?_⟩
  rw [TypeTree.spell, TypeTree.spellAll_eq, List.map_map]
  rfl

theorem form_array (held : Entries.field entries "type" = .text "array") :
    SchemaForm.ofEntries entries = .array (Entries.field entries "items") := by
  simp [SchemaForm.ofEntries, held, Value.isText]

theorem emits_array (only : HasOnly entries ["type", "items"])
    (held : Entries.field entries "type" = .text "array")
    (given : (Entries.field entries "items").isTrue = true)
    (item : Emits (typeOf context remaining (Entries.field entries "items")) tree) :
    Emits (typeOf context remaining (.object entries)) (.array tree) := by
  obtain ⟨typed, found, spelled⟩ := item
  rw [typeOf_plain (only.plain (by decide)), form_array held, typeOfForm, if_pos given, found]
  refine ⟨_, rfl, ?_⟩
  rw [PropertyType.render, TypeTree.spell, spelled]

theorem emits_anyArray (only : HasOnly entries ["type", "items"])
    (held : Entries.field entries "type" = .text "array")
    (missing : (Entries.field entries "items").isTrue = false) :
    Emits (typeOf context remaining (.object entries)) (.array .any) := by
  rw [typeOf_plain (only.plain (by decide)), form_array held, typeOfForm, missing]
  exact ⟨_, rfl, rfl⟩

theorem emits_map {values : Entries} (only : HasOnly entries ["type", "additionalProperties"])
    (fits : TypeFits entries "object")
    (held : Entries.field entries "additionalProperties" = .object values)
    (value : Emits (typeOf context remaining (.object values)) tree) :
    Emits (typeOf context remaining (.object entries)) (.record tree) := by
  have choices := only.field "enum" (by decide) (by decide)
  have properties := only.field "properties" (by decide) (by decide)
  have form : SchemaForm.ofEntries entries = .record (.object values) := by
    rcases fits with type | type
    · simp [SchemaForm.ofEntries, type, choices, properties, held, Value.isText, Value.isNull,
        Value.isTrue, Value.isObject, Scalar.isTrue]
    · simp [SchemaForm.ofEntries, type, choices, properties, held, Value.isText, Value.isNull,
        Value.isTrue, Value.isObject, Scalar.isTrue]
  obtain ⟨typed, found, spelled⟩ := value
  rw [typeOf_plain (only.plain (by decide)), form, typeOfForm, found]
  refine ⟨_, rfl, ?_⟩
  rw [PropertyType.render, spelled]
  rfl

def EmitsAll (found : Except Error TypedVariants) (trees : List TypeTree) : Prop :=
  ∃ typed, found = .ok typed ∧
    typed.types.map PropertyType.render = trees.map TypeTree.spell

theorem emits_variants {name : String} {connective : Connective} {variants : List Value}
    {trees : List TypeTree} (only : HasOnly entries [name])
    (joins : (name, connective) ∈ connectives) (held : Entries.field entries name = .list variants)
    (given : variants ≠ []) (all : EmitsAll (typesOf context remaining variants) trees) :
    Emits (typeOf context remaining (.object entries)) (.ofVariants connective trees) := by
  obtain ⟨typed, found, spelled⟩ := all
  have same : typed.types.isEmpty = trees.isEmpty := by
    rw [← List.isEmpty_map (f := PropertyType.render), spelled, List.isEmpty_map]
  rw [typeOf_variants only joins (variantsUnder_of_list held given), found]
  refine ⟨typed.combine connective.form, rfl, ?_⟩
  rw [TypedVariants.combine, PropertyType.ofVariants, TypeTree.ofVariants, same]
  cases empty : trees.isEmpty with
  | true => rfl
  | false =>
      rw [if_neg Bool.false_ne_true, if_neg Bool.false_ne_true, render_form, TypeTree.spell,
        TypeTree.spellAll_eq, map_eraseDupsBy, spelled]

theorem emitsAll_cons {variant : Value} {variants : List Value} {trees : List TypeTree}
    (given : isNullSchema variant = false) (first : Emits (typeOf context remaining variant) tree)
    (rest : EmitsAll (typesOf context remaining variants) trees) :
    EmitsAll (typesOf context remaining (variant :: variants)) (tree :: trees) := by
  obtain ⟨head, found, spelled⟩ := first
  obtain ⟨typed, found', spelled'⟩ := rest
  refine ⟨typed.cons head, ?_, ?_⟩
  · rw [typesOf_cons given, found, found']
    rfl
  · rw [TypedVariants.cons, List.map_cons, List.map_cons, spelled, spelled']

end Forms

section References

variable {schemas : Schemas} {ref : String}

theorem emits_primitiveRef {remaining : Schemas} {type : String}
    (known : baseMapping.lookup (SchemaName.parse [] ref).typeName = some type) :
    Emits (typeOfRef ⟨[], schemas⟩ remaining ref) (.named type []) := by
  refine ⟨_, typeOfRef_primitive List.lookup_nil (isPrimitiveRef_of_lookup known), ?_⟩
  rw [primitiveOf_of_lookup known]
  rfl

end References

section Emission

variable {schemas : Schemas}

-- Each way to mean something is a way to find a type; legible names are those of references.
mutual

theorem Means.emits {remaining : Schemas} {schema : Value} {tree : TypeTree} :
    Means schemas remaining schema tree → tree.isLegible = true →
      Emits (typeOf ⟨[], schemas⟩ remaining schema) tree
  | .reference held given leads, legible => typeOf_ref held given ▸ leads.emits legible
  | .primitive only held known, _ => emits_primitive rfl only held known
  | .anything only, _ => emits_anything only
  | .choices only fits held given, _ => emits_choices only fits held given
  | .array only held given item, legible => emits_array only held given (item.emits legible)
  | .anyArray only held missing, _ => emits_anyArray only held missing
  | .map only fits held value, legible =>
      emits_map only fits held (value.emits (TypeTree.isLegible_record _ ▸ legible))
  | .variants only joins held given all, legible =>
      emits_variants only joins held given (all.emits (TypeTree.allLegible_of_ofVariants legible))
termination_by structural means => means

theorem MeansAll.emits {remaining : Schemas} {variants : List Value} {trees : List TypeTree} :
    MeansAll schemas remaining variants trees → TypeTree.allLegible trees = true →
      EmitsAll (typesOf ⟨[], schemas⟩ remaining variants) trees
  | .nil, _ => ⟨{}, typesOf_nil, rfl⟩
  | .null null rest, legible => by
      rw [typesOf_null null]
      exact rest.emits legible
  | .cons given first rest, legible =>
      have both := Bool.and_eq_true_iff.mp legible
      emitsAll_cons given (first.emits both.1) (rest.emits both.2)
termination_by structural means => means

theorem RefMeans.emits {remaining : Schemas} {ref : String} {tree : TypeTree} :
    RefMeans schemas remaining ref tree → tree.isLegible = true →
      Emits (typeOfRef ⟨[], schemas⟩ remaining ref) tree
  | .primitive known, _ => emits_primitiveRef known
  | .unopened named absent, legible =>
      ⟨_, typeOfRef_unopened List.lookup_nil (not_isPrimitiveRef_of_lookup named) absent,
        TypeTree.typeName_ofRef legible⟩
  | .model named found own judged, legible =>
      ⟨_, typeOfRef_model List.lookup_nil (not_isPrimitiveRef_of_lookup named) found own judged,
        TypeTree.typeName_ofRef legible⟩
  | .aliased named found passes leads, legible =>
      typeOfRef_aliased List.lookup_nil (not_isPrimitiveRef_of_lookup named) found passes ▸
        leads.emits legible
  | .inPlace named found own judged inner, legible =>
      typeOfRef_inPlace List.lookup_nil (not_isPrimitiveRef_of_lookup named) found own judged ▸
        inner.emits legible
termination_by structural means => means

end

end Emission

/-- The type of a schema is found, and reading its text gives what the schema means. -/
theorem type_means_schema {schemas : Schemas} {schema : Value} {tree : TypeTree}
    (means : Means schemas schemas schema tree) (legible : tree.isLegible = true)
    (apart : tree.isApart = true) :
    ∃ typed, typeOf ⟨[], schemas⟩ schemas schema = .ok typed ∧
      ∃ read, TypeTree.read typed.type.render = some read ∧ TypeTree.Same read tree := by
  obtain ⟨typed, found, spelled⟩ := means.emits legible
  obtain ⟨read, readable, same⟩ := TypeTree.read_spell legible apart
  rw [← spelled] at readable
  exact ⟨typed, found, read, readable, same⟩

section Examples

def switches : Value :=
  .record [("type", .text "array"), ("items", .record [("oneOf", .list
    [.record [("$ref", .text (refTo "User"))],
      .record [("type", .text "object"), ("additionalProperties",
        .record [("type", .text "string"), ("enum", .texts ["on", "off"])])]])])]

def switchesTree : TypeTree :=
  .array (.joined .union [.named "User" [],
    .record (.joined .union [.literal "on", .literal "off"])])

theorem means_switches : Means [] [] switches switchesTree := by
  have user : RefMeans [] [] (refTo "User") (.named "User" []) := by
    have plain : isPlainKey "User" = true := by decide
    rw [← TypeTree.ofRef_of_plain plain (schemaKey_refTo plain)]
    refine .unopened ?_ rfl
    rw [parse_of_plain plain (schemaKey_refTo plain)]
    rfl
  have joins : ("oneOf", Connective.union) ∈ connectives := by decide
  refine .array (by decide) rfl rfl ?_
  change Means [] [] _ (.ofVariants .union [.named "User" [], _])
  refine .variants (by decide) joins rfl (by decide) (.cons rfl ?_ (.cons rfl ?_ .nil))
  · exact .reference rfl (by decide) user
  · refine .map (by decide) (.inr rfl) rfl ?_
    have held : Entries.field [(.text "type", .text "string"), (.text "enum", .texts ["on", "off"])]
        "enum" = .texts ["on", "off"] := rfl
    exact .choices (by decide) (.inr rfl) held (by decide)

theorem type_means_schema_switches :
    Means [] [] switches switchesTree ∧ switchesTree.isLegible = true ∧
      switchesTree.isApart = true ∧
      ∃ typed, typeOf ⟨[], []⟩ [] switches = .ok typed ∧
        ∃ read, TypeTree.read typed.type.render = some read ∧ TypeTree.Same read switchesTree :=
  ⟨means_switches, by decide, by decide, type_means_schema means_switches (by decide) (by decide)⟩

def unionInIntersection : Value :=
  .record [("allOf", .list
    [.record [("oneOf", .list
        [.record [("type", .text "string")], .record [("type", .text "number")]])],
      .record [("type", .text "boolean")]])]

def unionInIntersectionTree : TypeTree :=
  .joined .intersection
    [.joined .union [.named "string" [], .named "number" []], .named "boolean" []]

/-- The union gets no parentheses, and is read outside of the intersection. -/
theorem union_in_intersection_misread :
    Means [] [] unionInIntersection unionInIntersectionTree ∧
      ∃ typed, typeOf ⟨[], []⟩ [] unionInIntersection = .ok typed ∧
        ∃ read, TypeTree.read typed.type.render = some read ∧
          ¬ TypeTree.Same read unionInIntersectionTree := by
  have all : ("allOf", Connective.intersection) ∈ connectives := by decide
  have one : ("oneOf", Connective.union) ∈ connectives := by decide
  have means : Means [] [] unionInIntersection unionInIntersectionTree := by
    change Means [] [] _ (.ofVariants .intersection
      [.ofVariants .union [.named "string" [], .named "number" []], .named "boolean" []])
    refine .variants (by decide) all rfl (by decide) (.cons rfl ?_ (.cons rfl ?_ .nil))
    · refine .variants (by decide) one rfl (by decide) (.cons rfl ?_ (.cons rfl ?_ .nil))
      · exact .primitive (by decide) rfl rfl
      · exact .primitive (by decide) rfl rfl
    · exact .primitive (by decide) rfl rfl
  obtain ⟨typed, found, spelled⟩ := means.emits (by decide)
  refine ⟨means, typed, found, .joined .union [.named "string" [],
    .joined .intersection [.named "number" [], .named "boolean" []]], ?_, ?_⟩
  · rw [spelled]
    rfl
  · intro same
    have held := same.holds_eq ⟨fun name _ => name == "string", fun _ => false, id⟩
    revert held
    decide

end Examples

end TypedClient

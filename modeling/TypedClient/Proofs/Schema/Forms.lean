import TypedClient.Proofs.Schema.Typing

namespace TypedClient

variable {context : TypeContext} {remaining : Schemas} {entries : Entries}

structure IsPlainSchema (entries : Entries) : Prop where
  own : (Entries.field entries "$ref").isTrue = false
  all : variantsUnder? entries "allOf" = none
  one : variantsUnder? entries "oneOf" = none
  any : variantsUnder? entries "anyOf" = none

theorem typeOf_ref {ref : String} (held : Entries.field entries "$ref" = .text ref)
    (given : ref ≠ "") :
    typeOf context remaining (.object entries) = typeOfRef context remaining ref := by
  have holds : (Entries.field entries "$ref").isTrue = true := by
    rw [held]
    simpa [Value.isTrue, Scalar.isTrue] using given
  rw [typeOf, if_pos holds, held]

theorem typeOf_allOf {variants : List Value} (own : (Entries.field entries "$ref").isTrue = false)
    (found : variantsUnder? entries "allOf" = some variants) :
    typeOf context remaining (.object entries) =
      (·.combine .intersection) <$> typesOf context remaining variants := by
  rw [typeOf, own, if_neg Bool.false_ne_true]
  split
  · rename_i others same
    cases found.symm.trans same
    rfl
  · rename_i none
    cases found.symm.trans none

theorem typeOf_oneOf {variants : List Value} (own : (Entries.field entries "$ref").isTrue = false)
    (all : variantsUnder? entries "allOf" = none)
    (found : variantsUnder? entries "oneOf" = some variants) :
    typeOf context remaining (.object entries) =
      (·.combine .union) <$> typesOf context remaining variants := by
  rw [typeOf, own, if_neg Bool.false_ne_true]
  split
  · rename_i others same
    cases all.symm.trans same
  · split
    · rename_i others same
      cases found.symm.trans same
      rfl
    · rename_i none
      cases found.symm.trans none

theorem typeOf_anyOf {variants : List Value} (own : (Entries.field entries "$ref").isTrue = false)
    (all : variantsUnder? entries "allOf" = none) (one : variantsUnder? entries "oneOf" = none)
    (found : variantsUnder? entries "anyOf" = some variants) :
    typeOf context remaining (.object entries) =
      (·.combine .union) <$> typesOf context remaining variants := by
  rw [typeOf, own, if_neg Bool.false_ne_true]
  split
  · rename_i others same
    cases all.symm.trans same
  · split
    · rename_i others same
      cases one.symm.trans same
    · split
      · rename_i others same
        cases found.symm.trans same
        rfl
      · rename_i none
        cases found.symm.trans none

def typeOfForm (context : TypeContext) (remaining : Schemas) : SchemaForm → Except Error Typed
  | .array items =>
    if items.isTrue then
      (fun item => { item with type := .array item.type }) <$> typeOf context remaining items
    else .ok ⟨.array (.plain "any"), [], []⟩
  | .enum choices => (fun type => ⟨type, [], []⟩) <$> PropertyType.ofEnum choices
  | .record value =>
    (fun typed => { typed with type := .record typed.type }) <$> typeOf context remaining value
  | .object => .ok ⟨.plain "object", [], []⟩
  | .named type => (fun type => ⟨type, [], []⟩) <$> PropertyType.ofTypeField context.mapping type

theorem typeOf_plain (plain : IsPlainSchema entries) :
    typeOf context remaining (.object entries) =
      typeOfForm context remaining (SchemaForm.ofEntries entries) := by
  rw [typeOf, plain.own, if_neg Bool.false_ne_true]
  split
  · rename_i others same
    cases plain.all.symm.trans same
  · split
    · rename_i others same
      cases plain.one.symm.trans same
    · split
      · rename_i others same
        cases plain.any.symm.trans same
      · split
        · rename_i items form
          rw [form, typeOfForm]
          split
          · rfl
          · rfl
        · rename_i form
          rw [form]
          rfl
        · rename_i form
          rw [form]
          rfl
        · rename_i form
          rw [form]
          rfl
        · rename_i form
          rw [form]
          rfl

theorem typesOf_nil : typesOf context remaining [] = .ok {} := by
  rw [typesOf]

theorem typesOf_null {variant : Value} (null : isNullSchema variant = true) (rest : List Value) :
    typesOf context remaining (variant :: rest) = typesOf context remaining rest := by
  rw [typesOf, if_pos null]

theorem typesOf_cons {variant : Value} (given : isNullSchema variant = false) (rest : List Value) :
    typesOf context remaining (variant :: rest) = do
      let first ← typeOf context remaining variant
      return (← typesOf context remaining rest).cons first := by
  rw [typesOf, given, if_neg Bool.false_ne_true]

theorem primitiveOf_unmapped (schemas : Schemas) (ref : String) :
    primitiveOf ⟨[], schemas⟩ ref =
      (baseMapping.lookup (SchemaName.parse [] ref).typeName).getD "any" := by
  rw [primitiveOf, TypeMapping.find?, List.lookup_nil, Option.none_or]

theorem primitiveOf_of_lookup {schemas : Schemas} {ref type : String}
    (known : baseMapping.lookup (SchemaName.parse [] ref).typeName = some type) :
    primitiveOf ⟨[], schemas⟩ ref = type := by
  rw [primitiveOf_unmapped, known, Option.getD_some]

theorem isPrimitiveRef_of_lookup {schemas : Schemas} {ref type : String}
    (known : baseMapping.lookup (SchemaName.parse [] ref).typeName = some type) :
    isPrimitiveRef ⟨[], schemas⟩ ref = true := by
  have all : ∀ entry ∈ baseMapping, (isBaseType entry.2 && entry.2 != "any") = true := by decide
  rw [isPrimitiveRef, primitiveOf_of_lookup known]
  exact all _ (mem_of_lookup known)

theorem not_isPrimitiveRef_of_lookup {schemas : Schemas} {ref : String}
    (named : baseMapping.lookup (SchemaName.parse [] ref).typeName = none) :
    isPrimitiveRef ⟨[], schemas⟩ ref = false := by
  rw [isPrimitiveRef, primitiveOf_unmapped, named]
  rfl

section References

variable {ref : String} {target : Value}
  (unmapped : context.mapping.lookup (SchemaName.parse context.mapping ref).typeName = none)

include unmapped

theorem typeOfRef_primitive (primitive : isPrimitiveRef context ref = true) :
    typeOfRef context remaining ref = .ok ⟨.plain (primitiveOf context ref), [ref], []⟩ := by
  rw [typeOfRef, unmapped]
  exact if_pos primitive

theorem typeOfRef_unopened (named : isPrimitiveRef context ref = false)
    (absent : remaining.find? (schemaKey ref) = none) :
    typeOfRef context remaining ref = .ok (.named context ref) := by
  rw [typeOfRef, unmapped]
  refine (if_neg (ne_true_of_eq_false named)).trans ?_
  split
  · rfl
  · rename_i found
    cases absent.symm.trans found

theorem typeOfRef_aliased {next : String} (named : isPrimitiveRef context ref = false)
    (found : remaining.find? (schemaKey ref) = some target)
    (leads : target.ref? = some (.text next)) :
    typeOfRef context remaining ref =
      typeOfRef context (remaining.without (schemaKey ref)) next := by
  rw [typeOfRef, unmapped]
  refine (if_neg (ne_true_of_eq_false named)).trans ?_
  split
  · rename_i absent
    cases found.symm.trans absent
  · rename_i other same
    cases found.symm.trans same
    rw [leads]
    rfl

theorem typeOfRef_alias {value : Value} (named : isPrimitiveRef context ref = false)
    (found : remaining.find? (schemaKey ref) = some target) (held : target.ref? = some value) :
    typeOfRef context remaining ref =
      value.toText >>= typeOfRef context (remaining.without (schemaKey ref)) := by
  rw [typeOfRef, unmapped]
  refine (if_neg (ne_true_of_eq_false named)).trans ?_
  split
  · rename_i absent
    cases found.symm.trans absent
  · rename_i other same
    cases found.symm.trans same
    rw [held]

theorem typeOfRef_own (named : isPrimitiveRef context ref = false)
    (found : remaining.find? (schemaKey ref) = some target) (own : target.ref? = none) :
    typeOfRef context remaining ref =
      isModel context.schemas (schemaKey ref) target >>= fun judged =>
        if judged then .ok (.named context ref)
        else typeOf context (remaining.without (schemaKey ref)) target := by
  rw [typeOfRef, unmapped]
  refine (if_neg (ne_true_of_eq_false named)).trans ?_
  split
  · rename_i absent
    cases found.symm.trans absent
  · rename_i other same
    cases found.symm.trans same
    rw [own]
    rfl

theorem typeOfRef_model (named : isPrimitiveRef context ref = false)
    (found : remaining.find? (schemaKey ref) = some target) (own : target.ref? = none)
    (judged : isModel context.schemas (schemaKey ref) target = .ok true) :
    typeOfRef context remaining ref = .ok (.named context ref) := by
  rw [typeOfRef, unmapped]
  refine (if_neg (ne_true_of_eq_false named)).trans ?_
  split
  · rename_i absent
    cases found.symm.trans absent
  · rename_i other same
    cases found.symm.trans same
    rw [own, judged]
    rfl

theorem typeOfRef_inPlace (named : isPrimitiveRef context ref = false)
    (found : remaining.find? (schemaKey ref) = some target) (own : target.ref? = none)
    (judged : isModel context.schemas (schemaKey ref) target = .ok false) :
    typeOfRef context remaining ref =
      typeOf context (remaining.without (schemaKey ref)) target := by
  rw [typeOfRef, unmapped]
  refine (if_neg (ne_true_of_eq_false named)).trans ?_
  split
  · rename_i absent
    cases found.symm.trans absent
  · rename_i other same
    cases found.symm.trans same
    rw [own, judged]
    rfl

end References

theorem typeOfRef_mapped {ref chosen : String}
    (mapped : context.mapping.lookup (SchemaName.parse context.mapping ref).typeName =
      some chosen) :
    typeOfRef context remaining ref = .ok ⟨.plain chosen, [], []⟩ := by
  rw [typeOfRef, mapped]

end TypedClient

import TypedClient.Proofs.Schema.Parts

namespace TypedClient

def Typed.ofParts (form : List PropertyType → PropertyType) (parts : List Typed) : Typed :=
  ⟨.ofVariants form (parts.map (·.type)), parts.flatMap (·.refs), parts.flatMap (·.fileNames)⟩

def variantForms : List (String × (List PropertyType → PropertyType)) :=
  [("allOf", .intersection), ("oneOf", .union), ("anyOf", .union)]

def primitiveOf (context : TypeContext) (ref : String) : String :=
  (context.mapping.find? (SchemaName.parse context.mapping ref).typeName).getD "any"

/-- Whether a reference stands for a primitive type by its name alone. -/
def isPrimitiveRef (context : TypeContext) (ref : String) : Bool :=
  isBaseType (primitiveOf context ref) && primitiveOf context ref != "any"

/-- A reference as the type of the model that it names. -/
def Typed.named (context : TypeContext) (ref : String) : Typed :=
  let name := SchemaName.parse context.mapping ref
  ⟨.plain name.typeName, [ref], [name.fileName]⟩

/-- The ways in which a schema gets a type, and those in which a reference does; the collection
holds the keys that are still closed on the branch. -/
structure TypingRules (context : TypeContext) (OfSchema : Schemas → Value → Typed → Prop)
    (OfRef : Schemas → String → Typed → Prop) : Prop where
  shorthand : ∀ remaining name,
    OfSchema remaining (.text name) ⟨.ofName context.mapping name, [], []⟩
  other : ∀ remaining {schema}, (∀ name, schema ≠ .text name) →
    schema.isObject = false → OfSchema remaining schema ⟨.plain "any", [], []⟩
  reference : ∀ {remaining entries ref typed}, Entries.field entries "$ref" = .text ref →
    OfRef remaining ref typed → OfSchema remaining (.object entries) typed
  variants : ∀ {remaining entries name form variants parts}, (name, form) ∈ variantForms →
    variantsUnder? entries name = some variants →
    List.Forall₂ (OfSchema remaining) (variants.filter (!isNullSchema ·)) parts →
    OfSchema remaining (.object entries) (.ofParts form parts)
  array : ∀ {remaining entries items item}, SchemaForm.ofEntries entries = .array items →
    OfSchema remaining items item →
    OfSchema remaining (.object entries) { item with type := .array item.type }
  anyArray : ∀ {remaining entries items}, SchemaForm.ofEntries entries = .array items →
    items.isTrue = false → OfSchema remaining (.object entries) ⟨.array (.plain "any"), [], []⟩
  choices : ∀ {remaining entries choices type}, SchemaForm.ofEntries entries = .enum choices →
    PropertyType.ofEnum choices = .ok type →
    OfSchema remaining (.object entries) ⟨type, [], []⟩
  record : ∀ {remaining entries value typed}, SchemaForm.ofEntries entries = .record value →
    OfSchema remaining value typed →
    OfSchema remaining (.object entries) { typed with type := .record typed.type }
  structured : ∀ {remaining entries}, SchemaForm.ofEntries entries = .object →
    OfSchema remaining (.object entries) ⟨.plain "object", [], []⟩
  keyword : ∀ {remaining entries keyword type}, SchemaForm.ofEntries entries = .named keyword →
    PropertyType.ofTypeField context.mapping keyword = .ok type →
    OfSchema remaining (.object entries) ⟨type, [], []⟩
  chosen : ∀ {remaining ref chosen},
    context.mapping.lookup (SchemaName.parse context.mapping ref).typeName = some chosen →
    OfRef remaining ref ⟨.plain chosen, [], []⟩
  primitive : ∀ {remaining ref}, isPrimitiveRef context ref = true →
    OfRef remaining ref ⟨.plain (primitiveOf context ref), [ref], []⟩
  unopened : ∀ {remaining ref}, isPrimitiveRef context ref = false →
    remaining.find? (schemaKey ref) = none → OfRef remaining ref (.named context ref)
  aliased : ∀ {remaining ref target next typed}, isPrimitiveRef context ref = false →
    remaining.find? (schemaKey ref) = some target → target.ref? = some (.text next) →
    OfRef (remaining.without (schemaKey ref)) next typed → OfRef remaining ref typed
  model : ∀ {remaining ref target}, isPrimitiveRef context ref = false →
    remaining.find? (schemaKey ref) = some target → target.ref? = none →
    isModel context.schemas (schemaKey ref) target = .ok true →
    OfRef remaining ref (.named context ref)
  inPlace : ∀ {remaining ref target typed}, isPrimitiveRef context ref = false →
    remaining.find? (schemaKey ref) = some target → target.ref? = none →
    isModel context.schemas (schemaKey ref) target = .ok false →
    OfSchema (remaining.without (schemaKey ref)) target typed → OfRef remaining ref typed

namespace SchemaForm

variable {entries : Entries}

theorem eq_items {items : Value} (form : ofEntries entries = .array items) :
    items = Entries.field entries "items" := by
  simp only [ofEntries] at form
  split at form
  · cases form
    rfl
  · split at form <;> (try split at form) <;> (try split at form) <;> cases form

theorem eq_choices {choices : Value} (form : ofEntries entries = .enum choices) :
    choices = Entries.field entries "enum" := by
  simp only [ofEntries] at form
  split at form
  · cases form
  · split at form
    · cases form
      rfl
    · split at form <;> (try split at form) <;> cases form

theorem true_of_choices {choices : Value} (form : ofEntries entries = .enum choices) :
    choices.isTrue = true := by
  simp only [ofEntries] at form
  split at form
  · cases form
  · split at form
    · rename_i given
      cases form
      exact (Bool.and_eq_true _ _ ▸ given).1
    · split at form <;> (try split at form) <;> cases form

theorem eq_keyword {keyword : Value} (form : ofEntries entries = .named keyword) :
    keyword = Entries.field entries "type" := by
  simp only [ofEntries] at form
  split at form
  · cases form
  · split at form
    · cases form
    · split at form
      · cases form
      · split at form
        · cases form
        · cases form
          rfl

theorem eq_record {value : Value} (form : ofEntries entries = .record value) :
    value = Entries.field entries "additionalProperties" := by
  simp only [ofEntries] at form
  split at form
  · cases form
  · split at form
    · cases form
    · split at form
      · cases form
        rfl
      · split at form <;> cases form

end SchemaForm

theorem toText_eq_ok {value : Value} {text : String} (read : value.toText = .ok text) :
    value = .text text := by
  unfold Value.toText at read
  split at read
  · cases read
    rfl
  · cases read

theorem toText_of_strange {value : Value} (strange : ∀ ref, value = .text ref → False) :
    value.toText = .error .notAText := by
  unfold Value.toText
  split
  · exact (strange _ rfl).elim
  · rfl

namespace TypingRules

variable {context : TypeContext} {OfSchema : Schemas → Value → Typed → Prop}
  {OfRef : Schemas → String → Typed → Prop}

mutual

theorem ofSchema (rules : TypingRules context OfSchema OfRef) (remaining : Schemas)
    (schema : Value) (typed : Typed) (ran : typeOf context remaining schema = .ok typed) :
    OfSchema remaining schema typed := by
  match schema, ran with
  | .scalar s, ran =>
      by_cases text : ∃ name, s = .text name
      · obtain ⟨name, rfl⟩ := text
        rw [typeOf] at ran
        cases ran
        exact rules.shorthand remaining name
      · have differs : ∀ name, Value.scalar s ≠ .text name := by
          intro name same
          exact text ⟨name, by cases same; rfl⟩
        rw [typeOf.eq_3 _ _ _ differs (by simp)] at ran
        cases ran
        exact rules.other remaining differs rfl
  | .list items, ran =>
      rw [typeOf.eq_3 _ _ _ (by simp) (by simp)] at ran
      cases ran
      exact rules.other remaining (by simp) rfl
  | .object entries, ran =>
      have positive : 0 < sizeOf (Value.object entries) := by
        simp only [Value.object.sizeOf_spec]
        omega
      have joined (name : String) (form : List PropertyType → PropertyType)
          (member : (name, form) ∈ variantForms) {variants : List Value}
          (found : variantsUnder? entries name = some variants)
          (all : (do return (← typesOf context remaining variants).combine form) = .ok typed) :
          OfSchema remaining (.object entries) typed := by
        have smaller : sizeOf variants < sizeOf (Value.object entries) := by
          have bound := sizeOf_variantsUnder? found
          simp only [Value.object.sizeOf_spec]
          omega
        simp only [bind_eq_ok, pure_eq_ok] at all
        obtain ⟨gathered, all, rfl⟩ := all
        obtain ⟨parts, each, rfl⟩ := ofVariants rules remaining variants gathered all
        exact rules.variants member found each
      rw [typeOf] at ran
      split at ran
      · split at ran
        · rename_i ref held
          exact rules.reference held (ofRef rules remaining ref typed ran)
        · cases ran
      · split at ran
        · rename_i found
          exact joined "allOf" .intersection (by simp [variantForms]) found ran
        · split at ran
          · rename_i found
            exact joined "oneOf" .union (by simp [variantForms]) found ran
          · split at ran
            · rename_i found
              exact joined "anyOf" .union (by simp [variantForms]) found ran
            · split at ran
              · rename_i items form
                split at ran
                · rename_i given
                  have smaller : sizeOf items < sizeOf (Value.object entries) := by
                    have bound := sizeOf_items form given
                    simp only [Value.object.sizeOf_spec]
                    omega
                  simp only [bind_eq_ok, pure_eq_ok] at ran
                  obtain ⟨item, inner, rfl⟩ := ran
                  exact rules.array form (ofSchema rules remaining items item inner)
                · rename_i absent
                  cases ran
                  exact rules.anyArray form (by simpa using absent)
              · rename_i form
                simp only [bind_eq_ok, pure_eq_ok] at ran
                obtain ⟨type, read, rfl⟩ := ran
                exact rules.choices form read
              · rename_i value form
                have smaller : sizeOf value < sizeOf (Value.object entries) := by
                  have bound := sizeOf_record form
                  simp only [Value.object.sizeOf_spec]
                  omega
                simp only [bind_eq_ok, pure_eq_ok] at ran
                obtain ⟨typed, inner, rfl⟩ := ran
                exact rules.record form (ofSchema rules remaining value typed inner)
              · rename_i form
                cases ran
                exact rules.structured form
              · rename_i form
                simp only [bind_eq_ok, pure_eq_ok] at ran
                obtain ⟨type, read, rfl⟩ := ran
                exact rules.keyword form read
termination_by (remaining.length, sizeOf schema)
decreasing_by all_goals exact Prod.Lex.right _ (by assumption)

theorem ofVariants (rules : TypingRules context OfSchema OfRef) (remaining : Schemas)
    (variants : List Value) (gathered : TypedVariants)
    (ran : typesOf context remaining variants = .ok gathered) :
    ∃ parts : List Typed,
      List.Forall₂ (OfSchema remaining) (variants.filter (!isNullSchema ·)) parts ∧
      gathered =
        ⟨parts.map (·.type), parts.flatMap (·.refs), parts.flatMap (·.fileNames)⟩ := by
  match variants, ran with
  | [], ran =>
      rw [typesOf] at ran
      cases ran
      exact ⟨[], by simp, rfl⟩
  | variant :: rest, ran =>
      have shorter : sizeOf rest < sizeOf (variant :: rest) := by
        simp only [List.cons.sizeOf_spec]
        omega
      have smaller : sizeOf variant < sizeOf (variant :: rest) := by
        simp only [List.cons.sizeOf_spec]
        omega
      rw [typesOf] at ran
      split at ran
      · rename_i null
        obtain ⟨parts, each, rfl⟩ := ofVariants rules remaining rest gathered ran
        exact ⟨parts, by simpa [null] using each, rfl⟩
      · rename_i given
        simp only [bind_eq_ok, pure_eq_ok] at ran
        obtain ⟨first, found, later, others, rfl⟩ := ran
        obtain ⟨parts, each, rfl⟩ := ofVariants rules remaining rest later others
        refine ⟨first :: parts, ?_, rfl⟩
        rw [List.filter_cons_of_pos (by simpa using given)]
        exact .cons (ofSchema rules remaining variant first found) each
termination_by (remaining.length, sizeOf variants)
decreasing_by all_goals exact Prod.Lex.right _ (by assumption)

theorem ofRef (rules : TypingRules context OfSchema OfRef) (remaining : Schemas) (ref : String)
    (typed : Typed) (ran : typeOfRef context remaining ref = .ok typed) :
    OfRef remaining ref typed := by
  rw [typeOfRef] at ran
  dsimp only at ran
  split at ran
  · rename_i chosen found
    cases ran
    exact rules.chosen found
  · change (if isPrimitiveRef context ref = true then _ else _) = _ at ran
    by_cases primitive : isPrimitiveRef context ref = true
    · rw [if_pos primitive] at ran
      cases ran
      exact rules.primitive primitive
    · rw [if_neg primitive] at ran
      rw [Bool.not_eq_true] at primitive
      split at ran
      · rename_i absent
        cases ran
        exact rules.unopened primitive absent
      · rename_i target found
        have fewer := Schemas.length_without_lt found
        split at ran
        · rename_i next held
          simp only [bind_eq_ok] at ran
          obtain ⟨name, read, inner⟩ := ran
          rw [toText_eq_ok read] at held
          exact rules.aliased primitive found held (ofRef rules _ name typed inner)
        · rename_i own
          simp only [bind_eq_ok] at ran
          obtain ⟨verdict, judged, inner⟩ := ran
          cases verdict with
          | true =>
              cases inner
              exact rules.model primitive found own judged
          | false =>
              exact rules.inPlace primitive found own judged (ofSchema rules _ target typed inner)
termination_by (remaining.length, 0)
decreasing_by all_goals exact Prod.Lex.left _ _ fewer

end

end TypingRules

end TypedClient

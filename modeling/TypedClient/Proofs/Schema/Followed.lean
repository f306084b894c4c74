import TypedClient.Proofs.Schema.Alias

namespace TypedClient

def chosenVariants? (entries : Entries) :
    Option ((List PropertyType → PropertyType) × List Value) :=
  variantForms.findSome? fun form => (variantsUnder? entries form.1).map (form.2, ·)

inductive SchemaKind : Value → Prop
  | shorthand (name : String) : SchemaKind (.text name)
  | other {schema} (unnamed : ∀ name, schema ≠ .text name) (loose : schema.isObject = false) :
      SchemaKind schema
  | reference {entries} {ref : String} (held : Entries.field entries "$ref" = .text ref)
      (given : ref ≠ "") : SchemaKind (.object entries)
  | broken {entries} (given : (Entries.field entries "$ref").isTrue = true)
      (strange : ∀ ref, Entries.field entries "$ref" ≠ .text ref) : SchemaKind (.object entries)
  | variants {entries form variants} (own : (Entries.field entries "$ref").isTrue = false)
      (chosen : chosenVariants? entries = some (form, variants)) : SchemaKind (.object entries)
  | plain {entries} (plain : IsPlainSchema entries) : SchemaKind (.object entries)

/-- The type of a schema follows a reference. -/
inductive Follows (ref : String) : Value → Prop
  | reference {entries} (held : Entries.field entries "$ref" = .text ref) (given : ref ≠ "") :
      Follows ref (.object entries)
  | variant {entries form variants variant} (own : (Entries.field entries "$ref").isTrue = false)
      (chosen : chosenVariants? entries = some (form, variants)) (member : variant ∈ variants)
      (given : isNullSchema variant = false) (inner : Follows ref variant) :
      Follows ref (.object entries)
  | item {entries items} (plain : IsPlainSchema entries)
      (form : SchemaForm.ofEntries entries = .array items) (given : items.isTrue = true)
      (inner : Follows ref items) : Follows ref (.object entries)
  | entry {entries value} (plain : IsPlainSchema entries)
      (form : SchemaForm.ofEntries entries = .record value) (inner : Follows ref value) :
      Follows ref (.object entries)

inductive Enters (schemas : Schemas) (key : String) (target : Value) (next : String) : Prop
  | aliased (held : target.ref? = some (.text next))
  | inPlace (own : target.ref? = none) (judged : isModel schemas key target = .ok false)
      (follows : Follows next target)

section Kinds

variable {context : TypeContext} {remaining : Schemas} {entries : Entries}
  {form : List PropertyType → PropertyType} {variants : List Value}

theorem chosenVariants_cases (chosen : chosenVariants? entries = some (form, variants)) :
    (variantsUnder? entries "allOf" = some variants ∧ form = .intersection) ∨
    (variantsUnder? entries "allOf" = none ∧ form = .union ∧
      (variantsUnder? entries "oneOf" = some variants ∨
        variantsUnder? entries "oneOf" = none ∧
          variantsUnder? entries "anyOf" = some variants)) := by
  unfold chosenVariants? variantForms at chosen
  cases all : variantsUnder? entries "allOf" with
  | some found =>
      simp only [List.findSome?_cons, all, Option.map_some, Option.some.injEq, Prod.mk.injEq]
        at chosen
      obtain ⟨rfl, rfl⟩ := chosen
      exact .inl ⟨rfl, rfl⟩
  | none =>
      refine .inr ⟨rfl, ?_⟩
      cases one : variantsUnder? entries "oneOf" with
      | some found =>
          simp only [List.findSome?_cons, all, one, Option.map_none, Option.map_some,
            Option.some.injEq, Prod.mk.injEq] at chosen
          obtain ⟨rfl, rfl⟩ := chosen
          exact ⟨rfl, .inl rfl⟩
      | none =>
          simp only [List.findSome?_cons, all, one, Option.map_none] at chosen
          cases any : variantsUnder? entries "anyOf" with
          | none => simp [any] at chosen
          | some found =>
              simp only [any, Option.map_some, Option.some.injEq, Prod.mk.injEq] at chosen
              obtain ⟨rfl, rfl⟩ := chosen
              exact ⟨rfl, .inr ⟨rfl, rfl⟩⟩

theorem sizeOf_chosenVariants (chosen : chosenVariants? entries = some (form, variants)) :
    sizeOf variants < sizeOf (Value.object entries) := by
  have smaller : sizeOf variants < sizeOf entries := by
    rcases chosenVariants_cases chosen with ⟨found, -⟩ | ⟨-, -, found | ⟨-, found⟩⟩
    · exact sizeOf_variantsUnder? found
    · exact sizeOf_variantsUnder? found
    · exact sizeOf_variantsUnder? found
  simp only [Value.object.sizeOf_spec]
  omega

theorem typeOf_chosenVariants (own : (Entries.field entries "$ref").isTrue = false)
    (chosen : chosenVariants? entries = some (form, variants)) :
    typeOf context remaining (.object entries) =
      (·.combine form) <$> typesOf context remaining variants := by
  rcases chosenVariants_cases chosen with ⟨all, rfl⟩ | ⟨all, rfl, one | ⟨one, any⟩⟩
  · exact typeOf_allOf own all
  · exact typeOf_oneOf own all one
  · exact typeOf_anyOf own all one any

theorem typeOf_broken (given : (Entries.field entries "$ref").isTrue = true)
    (strange : ∀ ref, Entries.field entries "$ref" ≠ .text ref) :
    typeOf context remaining (.object entries) = .error .notAText := by
  rw [typeOf, if_pos given]
  split
  · rename_i ref held
    exact absurd held (strange ref)
  · rfl

theorem typeOf_other {schema : Value} (unnamed : ∀ name, schema ≠ .text name)
    (loose : schema.isObject = false) :
    typeOf context remaining schema = .ok ⟨.plain "any", [], []⟩ := by
  refine typeOf.eq_3 _ _ _ unnamed ?_
  rintro entries rfl
  cases loose

theorem schemaKind (schema : Value) : SchemaKind schema := by
  cases schema with
  | scalar s =>
      by_cases named : ∃ name, s = .text name
      · obtain ⟨name, rfl⟩ := named
        exact .shorthand name
      · refine .other ?_ rfl
        rintro name same
        exact named ⟨name, by cases same; rfl⟩
  | list items => exact .other (by simp) rfl
  | object entries =>
      by_cases given : (Entries.field entries "$ref").isTrue = true
      · by_cases text : ∃ ref, Entries.field entries "$ref" = .text ref
        · obtain ⟨ref, held⟩ := text
          refine .reference held ?_
          rintro rfl
          rw [held] at given
          cases given
        · exact .broken given fun ref held => text ⟨ref, held⟩
      · rw [Bool.not_eq_true] at given
        cases chosen : chosenVariants? entries with
        | some found => exact .variants given chosen
        | none =>
            simp only [chosenVariants?, variantForms, List.findSome?_eq_none_iff,
              List.mem_cons, List.not_mem_nil, or_false, forall_eq_or_imp, forall_eq,
              Option.map_eq_none_iff] at chosen
            exact .plain ⟨given, chosen.1, chosen.2.1, chosen.2.2⟩

/-- To show something of all schemas and references on all branches, show it of a schema from its
parts and the references on the same branch, and of a reference from branches with a key less. -/
theorem typing_induction {OfSchema : Schemas → Value → Prop} {OfRef : Schemas → String → Prop}
    (schema : ∀ remaining schema,
      (∀ part, sizeOf part < sizeOf schema → OfSchema remaining part) →
      (∀ ref, OfRef remaining ref) → OfSchema remaining schema)
    (ref : ∀ remaining ref, (∀ target, remaining.find? (schemaKey ref) = some target →
      (∀ next, OfRef (remaining.without (schemaKey ref)) next) ∧
      OfSchema (remaining.without (schemaKey ref)) target) → OfRef remaining ref)
    (remaining : Schemas) :
    (∀ part, OfSchema remaining part) ∧ ∀ next, OfRef remaining next := by
  induction length : remaining.length using Nat.strong_induction_on generalizing remaining with
  | _ n fewer =>
      subst length
      have references (next : String) : OfRef remaining next := by
        refine ref remaining next fun target found => ?_
        obtain ⟨parts, nexts⟩ := fewer _ (Schemas.length_without_lt found) _ rfl
        exact ⟨nexts, parts target⟩
      refine ⟨fun part => ?_, references⟩
      induction size : sizeOf part using Nat.strong_induction_on generalizing part with
      | _ m smaller =>
          subst size
          exact schema remaining part (fun inner less => smaller _ less inner rfl) references

def SchemaForm.part? : SchemaForm → Option Value
  | .array items => if items.isTrue then some items else none
  | .record value => some value
  | _ => none

def SchemaForm.wrap : SchemaForm → PropertyType → PropertyType
  | .record _ => .record
  | _ => .array

theorem SchemaForm.part?_eq_some {form : SchemaForm} {part : Value} :
    form.part? = some part ↔
      (form = .array part ∧ part.isTrue = true) ∨ form = .record part := by
  cases form with
  | array items =>
      rw [part?]
      split
      · rename_i given
        simp only [Option.some.injEq, array.injEq, reduceCtorEq, or_false]
        exact ⟨by rintro rfl; exact ⟨rfl, given⟩, And.left⟩
      · rename_i absent
        simp only [array.injEq, reduceCtorEq, or_false, false_iff, not_and]
        rintro rfl
        exact absent
  | record value => simp [part?]
  | enum choices => simp [part?]
  | object => simp [part?]
  | named type => simp [part?]

theorem sizeOf_part? {part : Value} (single : (SchemaForm.ofEntries entries).part? = some part) :
    sizeOf part < sizeOf (Value.object entries) := by
  have inner : sizeOf part < sizeOf entries := by
    rcases SchemaForm.part?_eq_some.mp single with ⟨form, given⟩ | form
    · exact sizeOf_items form given
    · exact sizeOf_record form
  simp only [Value.object.sizeOf_spec]
  omega

theorem typeOfForm_array {items : Value} (given : items.isTrue = true) :
    typeOfForm context remaining (.array items) =
      (fun item => { item with type := .array item.type }) <$> typeOf context remaining items := by
  unfold typeOfForm
  exact if_pos given

theorem typeOfForm_loose {items : Value} (absent : items.isTrue = false) :
    typeOfForm context remaining (.array items) = .ok ⟨.array (.plain "any"), [], []⟩ := by
  unfold typeOfForm
  exact if_neg (ne_true_of_eq_false absent)

theorem typeOfForm_part {form : SchemaForm} {part : Value} (single : form.part? = some part) :
    typeOfForm context remaining form =
      (fun typed => { typed with type := form.wrap typed.type }) <$>
        typeOf context remaining part := by
  rcases SchemaForm.part?_eq_some.mp single with ⟨rfl, given⟩ | rfl
  · exact typeOfForm_array given
  · rfl

/-- Without a part the type is found from the form and the mapping alone. -/
theorem typeOfForm_settled {form : SchemaForm} {other : TypeContext} (left : Schemas)
    (whole : form.part? = none) (same : context.mapping = other.mapping) :
    typeOfForm context remaining form = typeOfForm other left form := by
  cases form with
  | array items =>
      cases given : items.isTrue with
      | false => rw [typeOfForm_loose given, typeOfForm_loose given]
      | true =>
          rw [SchemaForm.part?, if_pos given] at whole
          cases whole
  | record value => cases whole
  | enum choices => rfl
  | object => rfl
  | named type => simp only [typeOfForm, same]

theorem refs_of_settled {form : SchemaForm} {typed : Typed} (whole : form.part? = none)
    (ran : typeOfForm context remaining form = .ok typed) : typed.refs = [] := by
  cases form with
  | array items =>
      cases given : items.isTrue with
      | false =>
          rw [typeOfForm_loose given] at ran
          cases ran
          rfl
      | true =>
          rw [SchemaForm.part?, if_pos given] at whole
          cases whole
  | record value => cases whole
  | enum choices =>
      obtain ⟨type, made, rfl⟩ := (map_eq_ok _ _ _).mp ran
      rfl
  | object =>
      cases ran
      rfl
  | named type =>
      obtain ⟨type, made, rfl⟩ := (map_eq_ok _ _ _).mp ran
      rfl

theorem typesOf_congr {other : TypeContext} {left : Schemas}
    (each : ∀ variant ∈ variants, isNullSchema variant = false →
      typeOf context remaining variant = typeOf other left variant) :
    typesOf context remaining variants = typesOf other left variants := by
  induction variants with
  | nil => rw [typesOf_nil, typesOf_nil]
  | cons variant rest ih =>
      rw [List.forall_mem_cons] at each
      obtain ⟨own, others⟩ := each
      by_cases null : isNullSchema variant = true
      · rw [typesOf_null null, typesOf_null null, ih others]
      · rw [Bool.not_eq_true] at null
        rw [typesOf_cons null, typesOf_cons null, own null, ih others]

section Following

variable {ref : String}

theorem not_follows_loose {schema : Value} (loose : schema.isObject = false) :
    ¬ Follows ref schema := by
  intro follows
  cases follows <;> cases loose

theorem isTrue_of_reference {next : String} (held : Entries.field entries "$ref" = .text next)
    (given : next ≠ "") : (Entries.field entries "$ref").isTrue = true := by
  rw [held]
  simpa [Value.isTrue, Scalar.isTrue] using given

theorem follows_reference {next : String} (held : Entries.field entries "$ref" = .text next)
    (given : next ≠ "") : Follows ref (.object entries) ↔ ref = next := by
  have holds := isTrue_of_reference held given
  constructor
  · intro follows
    cases follows with
    | reference same =>
        cases held.symm.trans same
        rfl
    | variant own => cases holds.symm.trans own
    | item plain => cases holds.symm.trans plain.own
    | entry plain => cases holds.symm.trans plain.own
  · rintro rfl
    exact .reference held given

theorem chosenVariants_of_plain (plain : IsPlainSchema entries) :
    chosenVariants? entries = none := by
  simp [chosenVariants?, variantForms, plain.all, plain.one, plain.any]

theorem follows_variants (own : (Entries.field entries "$ref").isTrue = false)
    (chosen : chosenVariants? entries = some (form, variants)) :
    Follows ref (.object entries) ↔
      ∃ variant ∈ variants, isNullSchema variant = false ∧ Follows ref variant := by
  constructor
  · intro follows
    cases follows with
    | reference held given => cases own.symm.trans (isTrue_of_reference held given)
    | variant _ chosen' member given inner =>
        cases chosen.symm.trans chosen'
        exact ⟨_, member, given, inner⟩
    | item plain => cases chosen.symm.trans (chosenVariants_of_plain plain)
    | entry plain => cases chosen.symm.trans (chosenVariants_of_plain plain)
  · rintro ⟨variant, member, given, inner⟩
    exact .variant own chosen member given inner

theorem follows_plain (plain : IsPlainSchema entries) :
    Follows ref (.object entries) ↔
      ∃ part, (SchemaForm.ofEntries entries).part? = some part ∧ Follows ref part := by
  constructor
  · intro follows
    cases follows with
    | reference held given => cases plain.own.symm.trans (isTrue_of_reference held given)
    | variant _ chosen => cases chosen.symm.trans (chosenVariants_of_plain plain)
    | item _ form given inner =>
        rw [form]
        exact ⟨_, if_pos given, inner⟩
    | entry _ form inner =>
        rw [form]
        exact ⟨_, rfl, inner⟩
  · rintro ⟨part, single, inner⟩
    rcases SchemaForm.part?_eq_some.mp single with ⟨form, given⟩ | form
    · exact .item plain form given inner
    · exact .entry plain form inner

end Following

end Kinds

/-- Two collections, and what is left of them on a branch, are alike under the keys of a set that
what is followed from them does not leave. -/
structure AlikeOn (Key : String → Prop) (first second : TypeContext) (remaining left : Schemas) :
    Prop where
  mapping : first.mapping = second.mapping
  same : ∀ {key}, Key key → remaining.find? key = left.find? key
  judged : ∀ {key target}, Key key → remaining.find? key = some target →
    isModel first.schemas key target = isModel second.schemas key target
  closed : ∀ {ref target next}, Key (schemaKey ref) → isPrimitiveRef first ref = false →
    remaining.find? (schemaKey ref) = some target →
    Enters first.schemas (schemaKey ref) target next → Key (schemaKey next)

namespace AlikeOn

variable {Key : String → Prop} {first second : TypeContext} {remaining left : Schemas}
  {schema : Value} {ref : String}

theorem without (alike : AlikeOn Key first second remaining left) (key : String) :
    AlikeOn Key first second (remaining.without key) (left.without key) where
  mapping := alike.mapping
  same := by
    intro other inside
    rw [Schemas.find_without, Schemas.find_without, alike.same inside]
  judged := by
    intro other target inside found
    rw [Schemas.find_without] at found
    split at found
    · cases found
    · exact alike.judged inside found
  closed := by
    intro ref target next inside named found enters
    rw [Schemas.find_without] at found
    split at found
    · cases found
    · exact alike.closed inside named found enters

theorem typeOf_of_parts (alike : AlikeOn Key first second remaining left)
    (parts : ∀ part, sizeOf part < sizeOf schema → (∀ ref, Follows ref part → Follows ref schema) →
      typeOf first remaining part = typeOf second left part)
    (references : ∀ ref, Follows ref schema →
      typeOfRef first remaining ref = typeOfRef second left ref) :
    typeOf first remaining schema = typeOf second left schema := by
  cases schemaKind schema with
  | shorthand name => rw [typeOf, typeOf, alike.mapping]
  | other unnamed loose => rw [typeOf_other unnamed loose, typeOf_other unnamed loose]
  | broken given strange => rw [typeOf_broken given strange, typeOf_broken given strange]
  | reference held given =>
      rw [typeOf_ref held given, typeOf_ref held given]
      exact references _ (.reference held given)
  | variants own chosen =>
      rw [typeOf_chosenVariants own chosen, typeOf_chosenVariants own chosen]
      congr 1
      refine typesOf_congr fun variant member given => ?_
      have smaller := List.sizeOf_lt_of_mem member
      exact parts variant (smaller.trans (sizeOf_chosenVariants chosen))
        fun _ => .variant own chosen member given
  | plain plain =>
      rw [typeOf_plain plain, typeOf_plain plain]
      cases single : (SchemaForm.ofEntries _).part? with
      | none => exact typeOfForm_settled left single alike.mapping
      | some part =>
          rw [typeOfForm_part single, typeOfForm_part single]
          rw [parts part (sizeOf_part? single) fun _ follows =>
            (follows_plain plain).mpr ⟨part, single, follows⟩]

theorem typeOfRef_of_opened (alike : AlikeOn Key first second remaining left)
    (inside : Key (schemaKey ref))
    (nexts : ∀ {target next}, remaining.find? (schemaKey ref) = some target →
      Key (schemaKey next) →
      typeOfRef first (remaining.without (schemaKey ref)) next =
        typeOfRef second (left.without (schemaKey ref)) next)
    (whole : ∀ {target}, remaining.find? (schemaKey ref) = some target →
      (∀ next, Follows next target → Key (schemaKey next)) →
      typeOf first (remaining.without (schemaKey ref)) target =
        typeOf second (left.without (schemaKey ref)) target) :
    typeOfRef first remaining ref = typeOfRef second left ref := by
  have decoded : SchemaName.parse first.mapping ref = SchemaName.parse second.mapping ref := by
    rw [alike.mapping]
  have sort : isPrimitiveRef first ref = isPrimitiveRef second ref := by
    unfold isPrimitiveRef primitiveOf
    rw [decoded, alike.mapping]
  have naming : Typed.named first ref = Typed.named second ref := by
    unfold Typed.named
    rw [decoded]
  cases mapped : first.mapping.lookup (SchemaName.parse first.mapping ref).typeName with
  | some chosen =>
      rw [typeOfRef_mapped mapped]
      rw [decoded, alike.mapping] at mapped
      rw [typeOfRef_mapped mapped]
  | none =>
      have unmapped := mapped
      rw [decoded, alike.mapping] at unmapped
      cases primitive : isPrimitiveRef first ref with
      | true =>
          rw [typeOfRef_primitive mapped primitive,
            typeOfRef_primitive unmapped (sort.symm.trans primitive)]
          unfold primitiveOf
          rw [decoded, alike.mapping]
      | false =>
          have other := sort.symm.trans primitive
          have same := alike.same inside
          cases found : remaining.find? (schemaKey ref) with
          | none =>
              rw [typeOfRef_unopened mapped primitive found, naming,
                typeOfRef_unopened unmapped other (same.symm.trans found)]
          | some target =>
              have found' := same.symm.trans found
              cases held : target.ref? with
              | some value =>
                  rw [typeOfRef_alias mapped primitive found held,
                    typeOfRef_alias unmapped other found' held]
                  cases read : value.toText with
                  | error failure => rfl
                  | ok next =>
                      rw [toText_eq_ok read] at held
                      exact nexts found (alike.closed inside primitive found (.aliased held))
              | none =>
                  rw [typeOfRef_own mapped primitive found held,
                    typeOfRef_own unmapped other found' held, ← alike.judged inside found, naming]
                  cases verdict : isModel first.schemas (schemaKey ref) target with
                  | error failure => rfl
                  | ok answer =>
                      cases answer with
                      | true => rfl
                      | false =>
                          exact whole found fun next follows =>
                            alike.closed inside primitive found (.inPlace held verdict follows)

variable (Key first second) in
/-- Schemas whose references stay among alike keys have the same type, and so have references. -/
theorem types (remaining : Schemas) :
    (∀ schema, ∀ left, AlikeOn Key first second remaining left →
      (∀ ref, Follows ref schema → Key (schemaKey ref)) →
      typeOf first remaining schema = typeOf second left schema) ∧
    ∀ ref, ∀ left, AlikeOn Key first second remaining left → Key (schemaKey ref) →
      typeOfRef first remaining ref = typeOfRef second left ref := by
  revert remaining
  apply typing_induction
  · intro remaining schema parts references left alike covered
    refine alike.typeOf_of_parts (fun part smaller within => ?_) fun ref follows => ?_
    · exact parts part smaller left alike fun ref follows => covered ref (within ref follows)
    · exact references ref left alike (covered ref follows)
  · intro remaining ref fewer left alike inside
    refine alike.typeOfRef_of_opened inside (fun found ahead => ?_) fun found ahead => ?_
    · exact (fewer _ found).1 _ _ (alike.without _) ahead
    · exact (fewer _ found).2 _ (alike.without _) ahead

theorem typeOf_eq (alike : AlikeOn Key first second remaining left)
    (covered : ∀ ref, Follows ref schema → Key (schemaKey ref)) :
    typeOf first remaining schema = typeOf second left schema :=
  (types Key first second remaining).1 schema left alike covered

theorem typeOfRef_eq (alike : AlikeOn Key first second remaining left)
    (inside : Key (schemaKey ref)) :
    typeOfRef first remaining ref = typeOfRef second left ref :=
  (types Key first second remaining).2 ref left alike inside

end AlikeOn

end TypedClient

import TypedClient.Proofs.Schema.Followed

namespace TypedClient

/-- What stands under a key is written out where it is referred to, and another key is followed from
there. -/
def WrittenEdge (schemas : Schemas) (key child : String) : Prop :=
  isPrimitiveKey key = false ∧ ∃ target next, schemas.find? key = some target ∧
    Enters schemas key target next ∧ schemaKey next = child

/-- What is written out under a key leads to a key that comes back to itself. -/
def Endless (schemas : Schemas) (key : String) : Prop :=
  ∃ again, Relation.ReflTransGen (WrittenEdge schemas) key again ∧
    Relation.TransGen (WrittenEdge schemas) again again

inductive Records (schemas : Schemas) : Schemas → String → String → Prop
  | primitive {remaining ref} (primitive : isPrimitiveKey (schemaKey ref) = true) :
      Records schemas remaining ref ref
  | unopened {remaining ref} (named : isPrimitiveKey (schemaKey ref) = false)
      (absent : remaining.find? (schemaKey ref) = none) : Records schemas remaining ref ref
  | model {remaining ref target} (named : isPrimitiveKey (schemaKey ref) = false)
      (found : remaining.find? (schemaKey ref) = some target) (own : target.ref? = none)
      (judged : isModel schemas (schemaKey ref) target = .ok true) :
      Records schemas remaining ref ref
  | through {remaining ref target next last} (named : isPrimitiveKey (schemaKey ref) = false)
      (found : remaining.find? (schemaKey ref) = some target)
      (enters : Enters schemas (schemaKey ref) target next)
      (rest : Records schemas (remaining.without (schemaKey ref)) next last) :
      Records schemas remaining ref last

section Recorded

theorem lookup_unmapped (schemas : Schemas) (ref : String) :
    (TypeContext.mk [] schemas).mapping.lookup
      (SchemaName.parse (TypeContext.mk [] schemas).mapping ref).typeName = none := rfl

variable {schemas remaining : Schemas} {ref last : String} {schema target : Value} {typed : Typed}

theorem records_primitive (primitive : isPrimitiveKey (schemaKey ref) = true) :
    Records schemas remaining ref last ↔ last = ref := by
  constructor
  · intro records
    cases records with
    | primitive => rfl
    | unopened => rfl
    | model => rfl
    | through named => cases primitive.symm.trans named
  · rintro rfl
    exact .primitive primitive

theorem records_unopened (named : isPrimitiveKey (schemaKey ref) = false)
    (absent : remaining.find? (schemaKey ref) = none) :
    Records schemas remaining ref last ↔ last = ref := by
  constructor
  · intro records
    cases records with
    | primitive => rfl
    | unopened => rfl
    | model => rfl
    | through _ found => cases absent.symm.trans found
  · rintro rfl
    exact .unopened named absent

theorem records_opened (named : isPrimitiveKey (schemaKey ref) = false)
    (found : remaining.find? (schemaKey ref) = some target)
    (written : target.ref? = none → isModel schemas (schemaKey ref) target = .ok false) :
    Records schemas remaining ref last ↔ ∃ next, Enters schemas (schemaKey ref) target next ∧
      Records schemas (remaining.without (schemaKey ref)) next last := by
  constructor
  · intro records
    cases records with
    | primitive primitive => cases named.symm.trans primitive
    | unopened _ absent => cases absent.symm.trans found
    | model _ found' own judged =>
        cases found.symm.trans found'
        cases (written own).symm.trans judged
    | through _ found' enters rest =>
        cases found.symm.trans found'
        exact ⟨_, enters, rest⟩
  · rintro ⟨next, enters, rest⟩
    exact .through named found enters rest

theorem records_model (named : isPrimitiveKey (schemaKey ref) = false)
    (found : remaining.find? (schemaKey ref) = some target) (own : target.ref? = none)
    (judged : isModel schemas (schemaKey ref) target = .ok true) :
    Records schemas remaining ref last ↔ last = ref := by
  constructor
  · intro records
    cases records with
    | primitive => rfl
    | unopened => rfl
    | model => rfl
    | through _ found' enters =>
        cases found.symm.trans found'
        cases enters with
        | aliased held => cases own.symm.trans held
        | inPlace _ other => cases judged.symm.trans other
  · rintro rfl
    exact .model named found own judged

theorem enters_alias {schemas : Schemas} {key name next : String}
    (held : target.ref? = some (.text name)) : Enters schemas key target next ↔ next = name := by
  constructor
  · intro enters
    cases enters with
    | aliased same =>
        cases held.symm.trans same
        rfl
    | inPlace own => cases own.symm.trans held
  · rintro rfl
    exact .aliased held

theorem enters_inPlace {schemas : Schemas} {key next : String} (own : target.ref? = none)
    (judged : isModel schemas key target = .ok false) :
    Enters schemas key target next ↔ Follows next target := by
  constructor
  · intro enters
    cases enters with
    | aliased held => cases own.symm.trans held
    | inPlace _ _ follows => exact follows
  · exact .inPlace own judged

def RecordsOf (schemas remaining : Schemas) (schema : Value) (typed : Typed) : Prop :=
  ∀ last, last ∈ typed.refs ↔
    ∃ ref, Follows ref schema ∧ Records schemas remaining ref last

theorem RecordsOf.of_loose (none : typed.refs = []) (loose : ∀ ref, ¬ Follows ref schema) :
    RecordsOf schemas remaining schema typed := by
  intro last
  simp [none, loose]

theorem mem_refs_typesOf {variants : List Value} {gathered : TypedVariants}
    (each : ∀ variant ∈ variants, ∀ typed,
      typeOf ⟨[], schemas⟩ remaining variant = .ok typed →
        RecordsOf schemas remaining variant typed)
    (ran : typesOf ⟨[], schemas⟩ remaining variants = .ok gathered) :
    last ∈ gathered.refs ↔ ∃ variant ∈ variants, isNullSchema variant = false ∧
      ∃ ref, Follows ref variant ∧ Records schemas remaining ref last := by
  induction variants generalizing gathered with
  | nil =>
      rw [typesOf_nil] at ran
      cases ran
      simp
  | cons variant rest ih =>
      rw [List.forall_mem_cons] at each
      obtain ⟨own, others⟩ := each
      cases null : isNullSchema variant with
      | true =>
          rw [typesOf_null null] at ran
          simp [ih others ran, null]
      | false =>
          rw [typesOf_cons null] at ran
          simp only [bind_eq_ok, pure_eq_ok] at ran
          obtain ⟨first, typed, later, gathers, rfl⟩ := ran
          simp only [TypedVariants.cons, List.mem_append, own first typed last, ih others gathers,
            List.exists_mem_cons_iff, null, true_and]

theorem recordsOf_plain {entries : Entries} (plain : IsPlainSchema entries)
    (parts : ∀ part, sizeOf part < sizeOf (Value.object entries) → ∀ typed,
      typeOf ⟨[], schemas⟩ remaining part = .ok typed → RecordsOf schemas remaining part typed)
    (ran : typeOf ⟨[], schemas⟩ remaining (.object entries) = .ok typed) :
    RecordsOf schemas remaining (.object entries) typed := by
  rw [typeOf_plain plain] at ran
  cases single : (SchemaForm.ofEntries entries).part? with
  | none =>
      refine .of_loose (refs_of_settled single ran) fun ref => ?_
      rw [follows_plain plain, single]
      simp
  | some part =>
      rw [typeOfForm_part single] at ran
      obtain ⟨inner, found, rfl⟩ := (map_eq_ok _ _ _).mp ran
      have records := parts part (sizeOf_part? single) inner found
      intro last
      simp only [records last, follows_plain plain, single, Option.some.injEq, exists_eq_left']

theorem recordsOf_of_parts
    (parts : ∀ part, sizeOf part < sizeOf schema → ∀ typed,
      typeOf ⟨[], schemas⟩ remaining part = .ok typed → RecordsOf schemas remaining part typed)
    (references : ∀ ref typed, typeOfRef ⟨[], schemas⟩ remaining ref = .ok typed →
      ∀ last, last ∈ typed.refs ↔ Records schemas remaining ref last)
    (ran : typeOf ⟨[], schemas⟩ remaining schema = .ok typed) :
    RecordsOf schemas remaining schema typed := by
  cases schemaKind schema with
  | shorthand name =>
      rw [typeOf] at ran
      cases ran
      exact .of_loose rfl fun _ => not_follows_loose rfl
  | other unnamed loose =>
      rw [typeOf_other unnamed loose] at ran
      cases ran
      exact .of_loose rfl fun _ => not_follows_loose loose
  | broken given strange =>
      rw [typeOf_broken given strange] at ran
      cases ran
  | reference held given =>
      rw [typeOf_ref held given] at ran
      intro last
      simp only [references _ _ ran, follows_reference held given, exists_eq_left]
  | variants own chosen =>
      rw [typeOf_chosenVariants own chosen] at ran
      obtain ⟨gathered, typed', rfl⟩ := (map_eq_ok _ _ _).mp ran
      have whole := sizeOf_chosenVariants chosen
      intro last
      simp only [TypedVariants.combine, follows_variants own chosen]
      rw [mem_refs_typesOf _ typed']
      · constructor
        · rintro ⟨variant, member, given, ref, follows, records⟩
          exact ⟨ref, ⟨variant, member, given, follows⟩, records⟩
        · rintro ⟨ref, ⟨variant, member, given, follows⟩, records⟩
          exact ⟨variant, member, given, ref, follows, records⟩
      · intro variant member
        exact parts variant ((List.sizeOf_lt_of_mem member).trans whole)
  | plain plain => exact recordsOf_plain plain parts ran

theorem mem_refs_of_opened (named : isPrimitiveKey (schemaKey ref) = false)
    (found : remaining.find? (schemaKey ref) = some target)
    (nexts : ∀ next typed,
      typeOfRef ⟨[], schemas⟩ (remaining.without (schemaKey ref)) next = .ok typed →
      ∀ last, last ∈ typed.refs ↔
        Records schemas (remaining.without (schemaKey ref)) next last)
    (whole : ∀ typed, typeOf ⟨[], schemas⟩ (remaining.without (schemaKey ref)) target = .ok typed →
      RecordsOf schemas (remaining.without (schemaKey ref)) target typed)
    (ran : typeOfRef ⟨[], schemas⟩ remaining ref = .ok typed) :
    last ∈ typed.refs ↔ Records schemas remaining ref last := by
  cases held : target.ref? with
  | some value =>
      rw [typeOfRef_alias (lookup_unmapped schemas ref) named found held, bind_eq_ok] at ran
      obtain ⟨next, read, ran⟩ := ran
      rw [toText_eq_ok read] at held
      rw [records_opened named found (by simp [held]), nexts next typed ran]
      simp only [enters_alias held, exists_eq_left]
  | none =>
      rw [typeOfRef_own (lookup_unmapped schemas ref) named found held, bind_eq_ok] at ran
      obtain ⟨verdict, judged, ran⟩ := ran
      cases verdict with
      | true =>
          cases ran
          rw [records_model named found held judged]
          exact List.mem_singleton
      | false =>
          rw [records_opened named found fun _ => judged, whole typed ran last]
          simp only [enters_inPlace held judged]

variable (schemas) in
theorem mem_refs (remaining : Schemas) :
    (∀ schema typed, typeOf ⟨[], schemas⟩ remaining schema = .ok typed →
      RecordsOf schemas remaining schema typed) ∧
    ∀ ref typed, typeOfRef ⟨[], schemas⟩ remaining ref = .ok typed →
      ∀ last, last ∈ typed.refs ↔ Records schemas remaining ref last := by
  revert remaining
  apply typing_induction
  · intro remaining schema parts references typed ran
    exact recordsOf_of_parts parts references ran
  · intro remaining ref fewer typed ran last
    cases primitive : isPrimitiveKey (schemaKey ref) with
    | true =>
        rw [typeOfRef_primitive (lookup_unmapped schemas ref) primitive] at ran
        cases ran
        rw [records_primitive primitive]
        exact List.mem_singleton
    | false =>
        cases found : remaining.find? (schemaKey ref) with
        | none =>
            rw [typeOfRef_unopened (lookup_unmapped schemas ref) primitive found] at ran
            cases ran
            rw [records_unopened primitive found]
            exact List.mem_singleton
        | some target =>
            obtain ⟨nexts, whole⟩ := fewer target found
            exact mem_refs_of_opened primitive found nexts whole ran

theorem Endless.step {key : String} (endless : Endless schemas key) :
    ∃ child, WrittenEdge schemas key child ∧ Endless schemas child := by
  obtain ⟨again, chain, cycle⟩ := endless
  rcases Relation.ReflTransGen.cases_head chain with rfl | ⟨child, edge, rest⟩
  · obtain ⟨child, edge, around⟩ := Relation.TransGen.head'_iff.mp cycle
    exact ⟨child, edge, _, around, cycle⟩
  · exact ⟨child, edge, again, rest, cycle⟩

theorem WrittenEdge.not_model {key child : String} (edge : WrittenEdge schemas key child) :
    (schemas.find? key).isSome = true ∧ isPrimitiveKey key = false ∧ ¬ IsModelKey schemas key := by
  obtain ⟨named, target, next, found, enters, -⟩ := edge
  refine ⟨by simp [found], named, ?_⟩
  rintro ⟨other, found', own, judged⟩
  cases found.symm.trans found'
  cases enters with
  | aliased held => cases own.symm.trans held
  | inPlace _ judged' => cases judged.symm.trans judged'

/-- Whatever comes back to itself is recorded where it is closed. -/
theorem records_of_endless
    (branch : OpenFor (WrittenEdge schemas) schemas remaining (schemaKey ref))
    (endless : Endless schemas (schemaKey ref)) :
    ∃ last, Records schemas remaining ref last ∧ (schemas.find? (schemaKey last)).isSome = true ∧
      isPrimitiveKey (schemaKey last) = false ∧ ¬ IsModelKey schemas (schemaKey last) := by
  induction length : remaining.length using Nat.strong_induction_on generalizing remaining ref with
  | _ n fewer =>
      subst length
      obtain ⟨child, edge, onwards⟩ := endless.step
      cases closed : remaining.find? (schemaKey ref) with
      | none => exact ⟨ref, .unopened edge.1 closed, edge.not_model⟩
      | some target =>
          obtain ⟨named, target', next, found, enters, rfl⟩ := id edge
          cases found.symm.trans (branch.part closed)
          obtain ⟨last, records, dangling⟩ := fewer _ (Schemas.length_without_lt closed)
            (branch.step edge) onwards rfl
          exact ⟨last, .through named closed enters records, dangling⟩

/-- What is recorded on the way from a key that leads to no such key is a model. -/
theorem emittable_of_records
    (branch : OpenFor (WrittenEdge schemas) schemas remaining (schemaKey ref))
    (ends : ¬ Endless schemas (schemaKey ref)) (records : Records schemas remaining ref last)
    (present : (schemas.find? (schemaKey last)).isSome = true) :
    isPrimitiveKey (schemaKey last) = true ∨ IsModelKey schemas (schemaKey last) := by
  induction records with
  | primitive primitive => exact .inl primitive
  | unopened named absent => exact absurd ⟨_, .refl, branch.behind present absent⟩ ends
  | model named found own judged => exact .inr ⟨_, branch.part found, own, judged⟩
  | through named found enters rest ih =>
      have edge : WrittenEdge schemas _ _ := ⟨named, _, _, branch.part found, enters, rfl⟩
      refine ih (branch.step edge) ?_ present
      rintro ⟨again, chain, cycle⟩
      exact ends ⟨again, chain.head edge, cycle⟩

/-- A key that does not come back to itself has no part in what is written out under it. -/
theorem alikeOn_without {key : String} (ends : ¬ Endless schemas key) :
    AlikeOn (Relation.TransGen (WrittenEdge schemas) key) ⟨[], schemas⟩ ⟨[], schemas⟩
      (schemas.without key) schemas where
  mapping := rfl
  same := by
    intro other ahead
    rw [Schemas.find_without, if_neg]
    rintro rfl
    exact ends ⟨other, .refl, ahead⟩
  judged := fun _ _ => rfl
  closed := by
    intro ref target next ahead named found enters
    rw [Schemas.find_without] at found
    split at found
    · cases found
    · exact ahead.tail ⟨named, target, next, found, enters, rfl⟩

/-- The references that the type of a schema records, as far as the collection holds them, are those
of primitive types and of models exactly if the schema follows no reference that leads to a key
whose schema is written out inside of itself. Away from such keys an alias has the type of what it
stands for, and a schema that is no model is written out in place. -/
theorem recorded_references_emittable (schemas : Schemas) :
    (∀ schema typed, typeOf ⟨[], schemas⟩ schemas schema = .ok typed →
      ((∀ ref ∈ typed.refs, (schemas.find? (schemaKey ref)).isSome = true →
          isPrimitiveKey (schemaKey ref) = true ∨ IsModelKey schemas (schemaKey ref)) ↔
        ∀ ref, Follows ref schema → ¬ Endless schemas (schemaKey ref))) ∧
    ∀ ref target, isPrimitiveKey (schemaKey ref) = false →
      schemas.find? (schemaKey ref) = some target → ¬ Endless schemas (schemaKey ref) →
      (∀ next, target.ref? = some (.text next) →
        typeOfRef ⟨[], schemas⟩ schemas ref = typeOfRef ⟨[], schemas⟩ schemas next) ∧
      (target.ref? = none → isModel schemas (schemaKey ref) target = .ok false →
        typeOfRef ⟨[], schemas⟩ schemas ref = typeOf ⟨[], schemas⟩ schemas target) := by
  refine ⟨fun schema typed ran => ?_, fun ref target named found ends => ⟨?_, ?_⟩⟩
  · have recorded := (mem_refs schemas schemas).1 schema typed ran
    constructor
    · intro emittable ref follows endless
      obtain ⟨last, records, present, named, unwritten⟩ :=
        records_of_endless (.start _ _ _) endless
      rcases emittable last ((recorded last).mpr ⟨ref, follows, records⟩) present with
        primitive | model
      · cases named.symm.trans primitive
      · exact unwritten model
    · intro finite last member present
      obtain ⟨ref, follows, records⟩ := (recorded last).mp member
      exact emittable_of_records (.start _ _ _) (finite ref follows) records present
  · intro next held
    rw [typeOfRef_aliased (lookup_unmapped schemas ref) named found held]
    exact (alikeOn_without ends).typeOfRef_eq (.single ⟨named, _, _, found, .aliased held, rfl⟩)
  · intro own judged
    rw [typeOfRef_inPlace (lookup_unmapped schemas ref) named found own judged]
    refine (alikeOn_without ends).typeOf_eq fun next follows => ?_
    exact .single ⟨named, _, _, found, .inPlace own judged follows, rfl⟩

def status : Value := .record [("type", .text "string"), ("enum", .texts ["on", "off"])]

def statuses : Schemas :=
  [("Status", status), ("StatusAlias", .record [("$ref", .text (refTo "Status"))]),
    ("User", userModel)]

def statusOrUser : Value :=
  .record [("oneOf", .list [.record [("$ref", .text (refTo "StatusAlias"))],
    .record [("$ref", .text (refTo "User"))]])]

theorem writtenEdge_statuses {key child : String} (edge : WrittenEdge statuses key child) :
    key = "StatusAlias" ∧ child = "Status" := by
  obtain ⟨named, target, next, found, enters, rfl⟩ := edge
  have member := Schemas.mem_of_find found
  simp only [statuses, List.mem_cons, Prod.mk.injEq, List.not_mem_nil, or_false] at member
  rcases member with ⟨rfl, rfl⟩ | ⟨rfl, rfl⟩ | ⟨rfl, rfl⟩
  · rw [enters_inPlace rfl (isModel_of_single (by decide) rfl), status, Value.record,
      follows_plain ⟨rfl, rfl, rfl, rfl⟩] at enters
    obtain ⟨part, own, -⟩ := enters
    cases own
  · obtain rfl := (enters_alias rfl).mp enters
    exact ⟨rfl, by decide⟩
  · cases enters with
    | aliased held => cases held
    | inPlace own judged =>
        rw [userModel, Value.record, isModel_of_single (by decide) rfl] at judged
        cases judged

theorem finite_statuses (key : String) : ¬ Endless statuses key := by
  rintro ⟨again, -, cycle⟩
  obtain ⟨child, edge, around⟩ := Relation.TransGen.head'_iff.mp cycle
  obtain ⟨rfl, rfl⟩ := writtenEdge_statuses edge
  rcases Relation.ReflTransGen.cases_head around with same | ⟨next, onwards, -⟩
  · exact absurd same (by decide)
  · exact absurd (writtenEdge_statuses onwards).1 (by decide)

theorem recorded_references_emittable_statuses :
    ∃ typed, typeOf ⟨[], statuses⟩ statuses statusOrUser = .ok typed ∧
      typed.refs = [refTo "User"] ∧
      (∀ ref ∈ typed.refs, (statuses.find? (schemaKey ref)).isSome = true →
        isPrimitiveKey (schemaKey ref) = true ∨ IsModelKey statuses (schemaKey ref)) ∧
      typeOfRef ⟨[], statuses⟩ statuses (refTo "StatusAlias") =
        typeOf ⟨[], statuses⟩ statuses status := by
  obtain ⟨recorded, inPlace⟩ := recorded_references_emittable statuses
  have statusKey : schemaKey (refTo "Status") = "Status" := by decide
  have aliasKey : schemaKey (refTo "StatusAlias") = "StatusAlias" := by decide
  have toAlias := (inPlace (refTo "StatusAlias") _ (by decide) (by rw [aliasKey]; rfl)
    (finite_statuses _)).1 (refTo "Status") rfl
  have toStatus := (inPlace (refTo "Status") status (by decide) (by rw [statusKey]; rfl)
    (finite_statuses _)).2 rfl (isModel_of_single (by decide) rfl)
  have typedStatus : typeOf ⟨[], statuses⟩ statuses status =
      .ok ⟨.literals ["'on'", "'off'"], [], []⟩ := typeOf_plain ⟨rfl, rfl, rfl, rfl⟩
  have typedUser : typeOfRef ⟨[], statuses⟩ statuses (refTo "User") =
      .ok ⟨.plain "User", [refTo "User"], ["User"]⟩ := by
    refine typeOfRef_named rfl (by decide) fun schema found => ?_
    cases found
    exact ⟨rfl, isModel_of_single (by decide) rfl⟩
  have named (key : String) :
      typeOf ⟨[], statuses⟩ statuses (.record [("$ref", .text (refTo key))]) =
        typeOfRef ⟨[], statuses⟩ statuses (refTo key) := typeOf_refTo
  have ran : typeOf ⟨[], statuses⟩ statuses statusOrUser = .ok (TypedVariants.combine
      ⟨[.literals ["'on'", "'off'"], .plain "User"], [refTo "User"], ["User"]⟩ .union) := by
    rw [statusOrUser, Value.record, typeOf_chosenVariants rfl rfl, typesOf_cons rfl,
      typesOf_cons rfl, typesOf_nil, named, named, toAlias, toStatus, typedStatus, typedUser]
    rfl
  exact ⟨_, ran, rfl, (recorded _ _ ran).mpr fun ref _ => finite_statuses _,
    toAlias.trans toStatus⟩

end Recorded

end TypedClient

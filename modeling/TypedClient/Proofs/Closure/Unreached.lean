import TypedClient.Proofs.Closure.Imports
import TypedClient.Proofs.Schema.Local

namespace TypedClient

open Closure

namespace Closure

variable {α : Type} {examine other : String → Noted (Option α)} {children : α → List String}
  {Known : String → Prop} {unseen left : List String}

theorem fresh_congr (alike : ∀ key, Known key → (key ∈ unseen ↔ key ∈ left)) {found : List String}
    (inside : ∀ key ∈ found, Known key) : fresh unseen found = fresh left found := by
  unfold fresh
  congr 1
  apply List.filter_congr
  intro key member
  rw [Bool.eq_iff_iff, List.contains_iff_mem, List.contains_iff_mem]
  exact alike key (inside key member)

theorem mem_leave (key : String) (new : List String) :
    key ∈ leave unseen new ↔ key ∈ unseen ∧ key ∉ new := by
  simp [leave]

/-- Walks that examine known keys alike, and that have the same known keys still to see, are the
same. -/
theorem visit_congr (examines : ∀ key, Known key → examine key = other key)
    (closed : ∀ key before found after, Known key → Yields (examine key) before (some found) after →
      ∀ child ∈ children found, Known child)
    (alike : ∀ key, Known key → (key ∈ unseen ↔ key ∈ left)) {queue : List String}
    (inside : ∀ key ∈ queue, Known key) :
    visit examine children unseen queue = visit other children left queue := by
  induction unseen, queue using visit.induct children generalizing left with
  | case1 unseen => rw [visit, visit]
  | case2 unseen key rest ihNone ihSome =>
      rw [List.forall_mem_cons] at inside
      obtain ⟨own, others⟩ := inside
      rw [visit, visit, ← examines key own]
      apply bind_congr_yields
      intro before found after ran
      cases found with
      | none => exact ihNone alike others
      | some found =>
          have ahead := closed key before found after own ran
          have same := fresh_congr alike ahead
          have later : ∀ next ∈ rest ++ fresh unseen (children found), Known next := by
            intro next member
            rcases List.mem_append.mp member with place | place
            · exact others next place
            · exact ahead next (List.mem_of_mem_filter (List.mem_eraseDups.mp place))
          dsimp only
          rw [ihSome found (fun next known => ?_) later, same]
          rw [mem_leave, mem_leave, alike next known, same]

end Closure

namespace Covers

variable {keys : List String} {part whole : Schemas} {schema : Value} {mapping : TypeMapping}
  {ignores : List Ignore}

theorem plainType (covers : Covers keys part whole) (inside : RefsAmong keys schema) :
    plainType ⟨⟨mapping, part⟩, ignores⟩ schema =
      TypedClient.plainType ⟨⟨mapping, whole⟩, ignores⟩ schema := by
  rw [TypedClient.plainType, TypedClient.plainType]
  dsimp only
  rw [covers.typeOf mapping inside]
  rfl

theorem schemaCode (covers : Covers keys part whole) (indent : String) (generics : Generics)
    (inside : RefsAmong keys schema) :
    schemaCode ⟨⟨mapping, part⟩, ignores⟩ indent generics schema =
      TypedClient.schemaCode ⟨⟨mapping, whole⟩, ignores⟩ indent generics schema := by
  rw [schemaCode_eq, schemaCode_eq, schemaPieces_congr (RefsAmong.hereditary keys).toPassesDown
    (fun _ => covers.plainType) indent schema inside]

theorem modelCode (covers : Covers keys part whole) (ref : String)
    (inside : RefsAmong keys schema) :
    modelCode ⟨⟨mapping, part⟩, ignores⟩ ref schema =
      TypedClient.modelCode ⟨⟨mapping, whole⟩, ignores⟩ ref schema := by
  have hereditary := RefsAmong.hereditary keys
  rw [modelCode_eq, modelCode_eq]
  dsimp only
  rw [← covers.flatten inside]
  cases flattened : TypedClient.flatten part schema with
  | error failure => rfl
  | ok flat =>
      have given := propertiesHave_flattenIn hereditary _ _ _ covers.known inside flattened
      have pieces : interfacePieces ⟨⟨mapping, part⟩, ignores⟩ flat =
          interfacePieces ⟨⟨mapping, whole⟩, ignores⟩ flat :=
        interfacePieces_congr hereditary.toPassesDown (fun _ => covers.plainType) given
      simp only [bind, Except.bind, pieces]
      rfl

theorem examineKey (covers : Covers keys part whole) {key : String}
    (same : part.find? (schemaKey key) = whole.find? (schemaKey key)) :
    examineKey ⟨⟨mapping, part⟩, ignores⟩ key =
      TypedClient.examineKey ⟨⟨mapping, whole⟩, ignores⟩ key := by
  have led : resolve part key = resolve whole key := covers.resolveIn same
  rw [TypedClient.examineKey, TypedClient.examineKey]
  dsimp only
  rw [← led]
  split
  · rfl
  · apply bind_congr_yields
    intro before target after ran
    obtain ⟨ends, -⟩ := (yields_liftExcept _ _ _ _).mp ran
    cases target with
    | none => rfl
    | some target =>
        have inside := covers.known _ (ends_of_resolve ends).1
        simp only [covers.isModel _ inside, covers.modelCode _ inside]

theorem reachableModels (covers : Covers keys part whole) (within : part ⊆ whole)
    (again : ∀ key ∈ keys, part.find? (schemaKey key) = whole.find? (schemaKey key))
    {refs : List String} (inside : ∀ ref ∈ refs, schemaKey ref ∈ keys) :
    reachableModels ⟨⟨mapping, part⟩, ignores⟩ refs =
      TypedClient.reachableModels ⟨⟨mapping, whole⟩, ignores⟩ refs := by
  have fewer : keysWithin part ⊆ keysWithin whole := by
    intro key member
    obtain ⟨entry, place, held⟩ := List.mem_flatMap.mp (List.mem_eraseDups.mp member)
    exact List.mem_eraseDups.mpr (List.mem_flatMap.mpr ⟨entry, within place, held⟩)
  have kept : ∀ key ∈ keysWithin part, key ∈ keys := by
    intro key member
    obtain ⟨entry, place, held⟩ := List.mem_flatMap.mp (List.mem_eraseDups.mp member)
    exact covers.known entry place key held
  let Known (key : String) : Prop := key ∈ refs.map schemaKey ∨ key ∈ keysWithin part
  have known : ∀ key, Known key → key ∈ keys := by
    rintro key (first | referred)
    · obtain ⟨ref, member, rfl⟩ := List.mem_map.mp first
      exact inside ref member
    · exact kept key referred
  have examines : ∀ key, Known key → TypedClient.examineKey ⟨⟨mapping, part⟩, ignores⟩ key =
      TypedClient.examineKey ⟨⟨mapping, whole⟩, ignores⟩ key :=
    fun key own => covers.examineKey (again key (known key own))
  have walked : visit (TypedClient.examineKey ⟨⟨mapping, part⟩, ignores⟩)
        (fun found => found.code.refs.map schemaKey)
        ((keysWithin part).filter (!(refs.map schemaKey).eraseDups.contains ·))
        (refs.map schemaKey).eraseDups =
      visit (TypedClient.examineKey ⟨⟨mapping, whole⟩, ignores⟩)
        (fun found => found.code.refs.map schemaKey)
        ((keysWithin whole).filter (!(refs.map schemaKey).eraseDups.contains ·))
        (refs.map schemaKey).eraseDups := by
    refine visit_congr examines ?_ ?_ fun key member => .inl (List.mem_eraseDups.mp member)
    · intro key before found after _ ran child member
      obtain ⟨expands, -⟩ := (yields_examineKey _ _ _ _ _).mp ran
      obtain ⟨-, schema, led, -, made⟩ := (expansion_eq_some_iff found).mp expands
      obtain ⟨ref, place, rfl⟩ := List.mem_map.mp member
      exact .inr (refs_modelCode (ends_of_resolve led).1 made ref place)
    · intro key own
      simp only [List.mem_filter]
      refine and_congr_left fun later => ⟨fun referred => fewer referred, fun _ => ?_⟩
      refine own.resolve_left fun first => ?_
      simp [first] at later
  rw [TypedClient.reachableModels, TypedClient.reachableModels]
  exact congrArg (· >>= _) walked

section Operations

variable {options : GenerateOptions}

theorem shownType (covers : Covers keys part whole) (inside : RefsAmong keys schema) :
    shownType { options with schemas := part } schema =
      TypedClient.shownType { options with schemas := whole } schema := by
  rw [TypedClient.shownType, TypedClient.shownType]
  dsimp only
  rw [covers.typeOf options.mapping inside]

theorem parameterCode (covers : Covers keys part whole) (indent : String) {field : FieldOption}
    (inside : RefsAmong keys field.schema) :
    parameterCode ⟨⟨mapping, part⟩, ignores⟩ indent field =
      TypedClient.parameterCode ⟨⟨mapping, whole⟩, ignores⟩ indent field := by
  rw [TypedClient.parameterCode, TypedClient.parameterCode, covers.schemaCode indent {} inside]

theorem queryCode (covers : Covers keys part whole) (name : String) {fields : List FieldOption}
    (inside : ∀ field ∈ fields, RefsAmong keys field.schema) :
    queryCode ⟨⟨mapping, part⟩, ignores⟩ name fields =
      TypedClient.queryCode ⟨⟨mapping, whole⟩, ignores⟩ name fields := by
  have coded : fields.mapM (TypedClient.parameterCode ⟨⟨mapping, part⟩, ignores⟩ "  ") =
      fields.mapM (TypedClient.parameterCode ⟨⟨mapping, whole⟩, ignores⟩ "  ") := by
    simpa using map_mapM_congr (h := id) fun field member =>
      congrArg (id <$> ·) (covers.parameterCode "  " (inside field member))
  rw [TypedClient.queryCode, TypedClient.queryCode, coded]

theorem queryOf (covers : Covers keys part whole) (url : UrlNames) (name : String)
    {parameters : List Entries}
    (inside : ∀ entries ∈ parameters, RefsAmong keys (.object entries)) :
    ShownSchemas.queryOf { options with schemas := part } url name parameters =
      ShownSchemas.queryOf { options with schemas := whole } url name parameters := by
  rw [ShownSchemas.queryOf, ShownSchemas.queryOf]
  cases read : queryParamsOf parameters with
  | error failure => simp only [bind, Except.bind]
  | ok fields =>
      have each : ∀ field ∈ fields, RefsAmong keys field.schema := by
        intro field member
        obtain ⟨entries, place, asked⟩ := source_of_mapM read member
        rw [schema_queryParamOf asked]
        exact (RefsAmong.hereditary keys).field (inside entries (List.mem_of_mem_filter place)) _
      cases fields with
      | nil => simp only [bind, Except.bind]
      | cons first rest =>
          simp only [bind, Except.bind, queryModelOf, covers.queryCode name each]

theorem bodyOf (covers : Covers keys part whole) {request : Option Entries}
    (inside : ∀ entries ∈ request, RefsAmong keys (.object entries)) :
    ShownSchemas.bodyOf { options with schemas := part } request =
      ShownSchemas.bodyOf { options with schemas := whole } request := by
  match request, inside with
  | none, _ => rfl
  | some [], _ => rfl
  | some (entry :: rest), inside =>
      simp only [ShownSchemas.bodyOf]
      cases read : bodySchema (entry :: rest) with
      | error failure => rfl
      | ok schema =>
          have own := (RefsAmong.hereditary keys).bodySchema (inside _ rfl) read
          simp only [bind, Except.bind, covers.shownType own]

theorem responseOf (covers : Covers keys part whole) {responses : Entries}
    (inside : RefsAmong keys (.object responses)) :
    ShownSchemas.responseOf { options with schemas := part } responses =
      ShownSchemas.responseOf { options with schemas := whole } responses := by
  rw [ShownSchemas.responseOf, ShownSchemas.responseOf]
  cases read : responseSchema responses with
  | error failure => rfl
  | ok schema =>
      have own := (RefsAmong.hereditary keys).responseSchema inside read
      dsimp only [bind, Except.bind]
      split
      · rfl
      · rw [covers.shownType own]

theorem generateApi (covers : Covers keys part whole) {operation : Operation}
    (inside : ∀ value ∈ operation.contents, RefsAmong keys value) :
    generateApi { options with schemas := part } operation =
      TypedClient.generateApi { options with schemas := whole } operation := by
  have asked : ∀ entries ∈ operation.parameters, RefsAmong keys (.object entries) :=
    fun entries member => inside _ (by simp [Operation.contents, member])
  have requested : ∀ entries ∈ operation.requestBody, RefsAmong keys (.object entries) :=
    fun entries member => inside _ (by simp [Operation.contents, Option.mem_def.mp member])
  have responded : RefsAmong keys (.object operation.responses) :=
    inside _ (by simp [Operation.contents])
  have shown (url : UrlNames) (name : String) :
      ShownSchemas.ofOperation { options with schemas := part } url name operation =
        ShownSchemas.ofOperation { options with schemas := whole } url name operation := by
    rw [ShownSchemas.ofOperation, ShownSchemas.ofOperation, covers.queryOf url name asked,
      covers.bodyOf requested, covers.responseOf responded]
  rw [TypedClient.generateApi, TypedClient.generateApi, shown]
  rfl

end Operations

end Covers

section References

variable {keys : List String} {options : GenerateOptions}
  (known : ∀ entry ∈ options.schemas, RefsAmong keys entry.2)

include known

theorem refs_shownType {schema : Value} {shown : String × List String}
    (inside : RefsAmong keys schema) (ran : shownType options schema = .ok shown) :
    ∀ ref ∈ shown.2, schemaKey ref ∈ keys := by
  obtain ⟨typed, found, ran⟩ := (bind_eq_ok _ _ _).mp ran
  cases ran
  exact (RefsAmong.typing ⟨options.mapping, options.schemas⟩ keys).ofSchema _ _ _ found inside known

theorem refs_queryCode {name : String} {fields : List FieldOption} {code : Code}
    (inside : ∀ field ∈ fields, RefsAmong keys field.schema)
    (ran : queryCode { mapping := options.mapping, schemas := options.schemas } name fields =
      .ok code) : ∀ ref ∈ code.refs, schemaKey ref ∈ keys := by
  let context : FieldContext := { mapping := options.mapping, schemas := options.schemas }
  obtain ⟨parts, each, refs, -⟩ := (RefsAmong.fields context known).queryCode trivial inside ran
  intro ref member
  rw [refs] at member
  obtain ⟨part, place, own⟩ := List.mem_flatMap.mp member
  exact each part place ref own

theorem refs_generateApi {operation : Operation} {api : Api} {notices : List Notice}
    (inside : ∀ value ∈ operation.contents, RefsAmong keys value)
    (ran : (generateApi options operation).outcome = (.ok api, notices)) :
    (∀ ref ∈ api.refs, schemaKey ref ∈ keys) ∧
      ∃ directory, api.models = modelsFor options directory api.refs := by
  obtain ⟨url, name, shown, read, -, -, refs, directory, models⟩ := shown_of_generateApi ran
  refine ⟨?_, directory, models⟩
  obtain ⟨asked, sent, received⟩ := (RefsAmong.hereditary keys).ofOperation inside read
  have types {found : Option (String × List String)}
      (each : ∀ own ∈ found, ∃ schema, RefsAmong keys schema ∧ shownType options schema = .ok own) :
      ∀ ref ∈ (found.map (·.2)).getD [], schemaKey ref ∈ keys := by
    cases found with
    | none => simp
    | some own =>
        obtain ⟨schema, parts, shows⟩ := each own rfl
        exact refs_shownType known parts shows
  intro ref member
  rw [refs, ShownSchemas.refs, List.mem_eraseDups, List.mem_append, List.mem_append] at member
  rcases member with (query | body) | response
  · cases given : shown.query with
    | none =>
        rw [given] at query
        cases query
    | some made =>
        obtain ⟨fields, code, parts, written, -, own⟩ := asked made given
        rw [given] at query
        exact refs_queryCode known parts written ref (own ▸ query)
  · exact types sent ref body
  · exact types received ref response

end References

/-- The keys that the references of a value are looked up under: without the prefix, and, where
their models are listed, with the prefix taken off once more. -/
def lookupKeys (value : Value) : List String :=
  (refsOf value).flatMap fun key => [key, schemaKey key]

/-- The keys that are reached from an operation, through its references and those of the schemas
under the keys. -/
def ReachedFrom (operation : Operation) (schemas : Schemas) : String → Prop :=
  Reachable (operation.contents.flatMap lookupKeys)
    fun key => ((schemas.find? key).map lookupKeys).getD []

open Classical in
noncomputable def Schemas.cutTo (schemas : Schemas) (Key : String → Prop) : Schemas :=
  schemas.filter fun entry => Key entry.1 ∧ schemas.find? entry.1 = some entry.2

namespace Schemas

variable {schemas : Schemas} {Key : String → Prop} {key : String}

theorem mem_cutTo {entry : String × Value} :
    entry ∈ schemas.cutTo Key ↔ Key entry.1 ∧ schemas.find? entry.1 = some entry.2 := by
  simp only [cutTo, List.mem_filter, decide_eq_true_eq]
  exact and_iff_right_of_imp fun held => mem_of_find held.2

theorem find_filter {kept : String × Value → Bool}
    (whole : ∀ schema, schemas.find? key = some schema → kept (key, schema) = true) :
    find? (schemas.filter kept) key = schemas.find? key := by
  unfold find? at *
  induction schemas with
  | nil => rfl
  | cons entry rest ih =>
      obtain ⟨name, schema⟩ := entry
      by_cases same : key = name
      · subst same
        have own := whole schema (by simp)
        rw [List.filter_cons_of_pos own, List.lookup_cons_self, List.lookup_cons_self]
      · have differs := beq_false_of_ne same
        rw [List.lookup_cons, differs] at whole ⊢
        by_cases held : kept (name, schema) = true
        · rw [List.filter_cons_of_pos held, List.lookup_cons, differs]
          exact ih whole
        · rw [List.filter_cons_of_neg held]
          exact ih whole

theorem find_cutTo (inside : Key key) : (schemas.cutTo Key).find? key = schemas.find? key :=
  find_filter fun schema found => by simp [inside, found]

end Schemas

section Reached

variable {operation : Operation} {schemas whole : Schemas}

noncomputable def reachedKeys (operation : Operation) (schemas : Schemas) : List String :=
  operation.contents.flatMap refsOf ++ keysWithin (schemas.cutTo (ReachedFrom operation schemas))

theorem reached_of_mem {key : String} (member : key ∈ reachedKeys operation schemas) :
    ReachedFrom operation schemas key ∧ ReachedFrom operation schemas (schemaKey key) := by
  have both {value : Value} (held : key ∈ refsOf value) :
      key ∈ lookupKeys value ∧ schemaKey key ∈ lookupKeys value :=
    ⟨List.mem_flatMap.mpr ⟨key, held, by simp⟩, List.mem_flatMap.mpr ⟨key, held, by simp⟩⟩
  rcases List.mem_append.mp member with asked | referred
  · obtain ⟨value, inside, held⟩ := List.mem_flatMap.mp asked
    obtain ⟨once, twice⟩ := both held
    exact ⟨.start (List.mem_flatMap.mpr ⟨value, inside, once⟩),
      .start (List.mem_flatMap.mpr ⟨value, inside, twice⟩)⟩
  · obtain ⟨entry, kept, held⟩ := List.mem_flatMap.mp (List.mem_eraseDups.mp referred)
    obtain ⟨parent, found⟩ := Schemas.mem_cutTo.mp kept
    obtain ⟨once, twice⟩ := both held
    exact ⟨.child parent (by simpa [found] using once),
      .child parent (by simpa [found] using twice)⟩

/-- What is reached of a collection is enough where another one agrees on it. -/
theorem covers_cutTo (agree : ∀ key, ReachedFrom operation schemas key →
      schemas.find? key = whole.find? key) :
    Covers (reachedKeys operation schemas) (schemas.cutTo (ReachedFrom operation schemas))
      whole where
  same key member := by
    have reached := (reached_of_mem member).1
    exact (Schemas.find_cutTo reached).trans (agree key reached)
  known entry kept key held :=
    List.mem_append_right _ (refsAmong_keysWithin _ entry kept key held)

theorem cutTo_subset (agree : ∀ key, ReachedFrom operation schemas key →
      schemas.find? key = whole.find? key) :
    schemas.cutTo (ReachedFrom operation schemas) ⊆ whole := by
  intro entry kept
  obtain ⟨reached, found⟩ := Schemas.mem_cutTo.mp kept
  exact Schemas.mem_of_find ((agree _ reached).symm.trans found)

/-- What is generated with a collection is what is generated with the reached part of one that
agrees with it. -/
theorem generated_of_cutTo (options : GenerateOptions) (agree : ∀ key,
      ReachedFrom operation schemas key → schemas.find? key = whole.find? key) :
    let part := schemas.cutTo (ReachedFrom operation schemas)
    generateApi { options with schemas := part } operation =
        generateApi { options with schemas := whole } operation ∧
      ∀ api notices, (generateApi { options with schemas := part } operation).outcome =
        (.ok api, notices) → api.models part = api.models whole := by
  intro part
  have covers : Covers (reachedKeys operation schemas) part whole := covers_cutTo agree
  have inside : ∀ value ∈ operation.contents, RefsAmong (reachedKeys operation schemas) value :=
    fun value member key held =>
      List.mem_append_left _ (List.mem_flatMap.mpr ⟨value, member, held⟩)
  refine ⟨covers.generateApi inside, fun api notices made => ?_⟩
  obtain ⟨refs, directory, models⟩ :=
    @refs_generateApi _ { options with schemas := part } covers.known _ _ _ inside made
  have again : ∀ key ∈ reachedKeys operation schemas,
      part.find? (schemaKey key) = whole.find? (schemaKey key) := by
    intro key member
    have reached := (reached_of_mem member).2
    exact (Schemas.find_cutTo reached).trans (agree _ reached)
  have listed : reachableModels ⟨⟨options.mapping, part⟩, options.ignores⟩ api.refs =
      reachableModels ⟨⟨options.mapping, whole⟩, options.ignores⟩ api.refs :=
    covers.reachableModels (cutTo_subset agree) again refs
  rw [models, modelsFor, modelsFor]
  exact congrArg (· >>= _) listed

end Reached

/-- Two collections that agree on every key that is reached from an operation give the same
function, and its models are the same from both. -/
theorem unreached_schemas_inert (options : GenerateOptions) (operation : Operation)
    (first second : Schemas) (agree : ∀ key, ReachedFrom operation first key →
      first.find? key = second.find? key) :
    generateApi { options with schemas := first } operation =
        generateApi { options with schemas := second } operation ∧
      ∀ api notices, (generateApi { options with schemas := first } operation).outcome =
        (.ok api, notices) → api.models first = api.models second := by
  obtain ⟨own, ownModels⟩ := generated_of_cutTo options (fun key _ => rfl : ∀ key,
    ReachedFrom operation first key → first.find? key = first.find? key)
  obtain ⟨other, otherModels⟩ := generated_of_cutTo options agree
  refine ⟨own.symm.trans other, fun api notices made => ?_⟩
  rw [← own] at made
  rw [← ownModels api notices made, otherModels api notices made]

theorem unreached_schemas_inert_friends : ∃ api,
    (generateApi friendOptions showFriend).outcome = (.ok api, []) ∧
    (generateApi { friendOptions with schemas := ("Other", .null) :: friends } showFriend).outcome =
      (.ok api, []) ∧
    api.models friends = api.models (("Other", .null) :: friends) := by
  have leads := schemaKey_refTo (by decide : isPlainKey "User" = true)
  have only : ∀ key, ReachedFrom showFriend friends key → key = "User" := by
    have again : schemaKey "User" = "User" := by decide
    intro key reached
    induction reached with
    | start member =>
        simpa [showFriend, Operation.contents, toUser, Value.record, lookupKeys, refsOf,
          refsOfEntries, refsOfEntry, leads, again] using member
    | child _ member ih =>
        subst ih
        have found : friends.find? "User" = some user := rfl
        simpa [found, user, toUser, Value.record, lookupKeys, refsOf, refsOfEntries, refsOfEntry,
          leads, again] using member
  obtain ⟨api, made, -⟩ := generateApi_friend
  obtain ⟨same, models⟩ := unreached_schemas_inert friendOptions showFriend friends
    (("Other", .null) :: friends) fun key reached => by rw [only key reached]; rfl
  exact ⟨api, made, same ▸ made, models api [] made⟩

def nestedRef : String := "#/components#/components/schemas//schemas/User"

def showNested : Operation := { showFriend with
  responses := [(.text "200", .record [("content", .record [("application/json",
    .record [("schema", .record [("$ref", .text nestedRef)])])])])] }

theorem schemaKey_nestedRef : schemaKey nestedRef = "#/components/schemas/User" := by decide

theorem showNested_shown (url : UrlNames) (name : String) :
    ShownSchemas.ofOperation friendOptions url name showNested =
      .ok { response := some ("User", [nestedRef]) } := by
  have absent : friends.find? (schemaKey nestedRef) = none := by
    rw [schemaKey_nestedRef]
    rfl
  have decoded : SchemaName.parse [] nestedRef = ⟨"User", "User"⟩ := by decide
  have typed : typeOf ⟨[], friends⟩ friends (.record [("$ref", .text nestedRef)]) =
      .ok ⟨.plain "User", [nestedRef], ["User"]⟩ := by
    refine (typeOf_ref rfl (by decide)).trans ((typeOfRef_unopened rfl (by decide) absent).trans ?_)
    rw [Typed.named, decoded]
  have shown : shownType friendOptions (.record [("$ref", .text nestedRef)]) =
      .ok ("User", [nestedRef]) := by
    unfold shownType friendOptions
    rw [typed]
    rfl
  have response : ShownSchemas.responseOf friendOptions showNested.responses =
      .ok (some ("User", [nestedRef])) := by
    unfold ShownSchemas.responseOf
    change some <$> shownType friendOptions (.record [("$ref", .text nestedRef)]) = _
    rw [shown]
    rfl
  unfold ShownSchemas.ofOperation
  rw [response]
  rfl

theorem modelsFor_nested (directory : String) : ∃ models notices,
    (modelsFor friendOptions directory [nestedRef] friends).outcome = (.ok models, notices) ∧
      models ≠ [] := by
  have known : ∀ key, Reachable ([nestedRef].map schemaKey) (childKeys friendContext) key →
      key = "#/components/schemas/User" ∨ key = "User" := by
    intro key reached
    cases reached with
    | start member => exact .inl (by simpa [schemaKey_nestedRef] using member)
    | child _ member =>
        have inside := childKeys_within _ _ _ member
        exact .inr (by simpa [friendContext, keysWithin_friends] using inside)
  obtain ⟨schema, found, own, judged⟩ := friend_isModelKey
  obtain ⟨code, made⟩ := modelCode_friend [] found
  have expands : expansion friendContext "#/components/schemas/User" =
      .ok (some ⟨"User", code⟩) := by
    refine (expansion_eq_some_iff _).mpr ⟨by decide, schema, ?_, judged, made⟩
    have again : schemaKey "#/components/schemas/User" = "User" := by decide
    rw [resolve, again]
    exact resolveIn_own found own
  have first := breadthFirst_visited ([nestedRef].map schemaKey) (childKeys_within friendContext)
  generalize walked : visited _ _ _ = order at first
  have all : ∀ key ∈ order, ∃ found, expansion friendContext key = .ok found := by
    intro key member
    rcases known key (first.least key member) with rfl | rfl
    · exact ⟨_, expands⟩
    · exact expansion_friend []
  have selected := (Selection.iff_eq (candidates friendContext order) _).mpr rfl
  have ran := (yields_reachableModels friendContext [nestedRef] _ _).mpr ⟨walked ▸ all, rfl, rfl⟩
  refine ⟨_, _, (yields_bind _ _ _ _ _).mpr ⟨_, _, ran, (yields_pure _ _ _ _).mpr ⟨rfl, rfl⟩⟩, ?_⟩
  have start : "#/components/schemas/User" ∈ order :=
    (first.mem_iff _).mpr (.start (by simp [schemaKey_nestedRef]))
  have candidate : Model.ofReached ⟨"User", code⟩ ∈ candidates friendContext order := by
    refine List.mem_map_of_mem (List.mem_filter.mpr ⟨?_, rfl⟩)
    exact List.mem_filterMap.mpr ⟨_, start, (expanded_eq_some_iff _).mpr expands⟩
  have file := (selected.mem_files _).mp (List.mem_map_of_mem candidate)
  intro empty
  rw [List.map_eq_nil_iff, walked] at empty
  rw [empty] at file
  cases file

theorem modelsFor_nothing (directory : String) : ∃ notices,
    (modelsFor friendOptions directory [nestedRef] []).outcome = (.ok [], notices) := by
  have missing (key : String) : expansion {} key = .ok none := by
    unfold expansion
    split
    · rw [resolve, resolveIn_absent rfl]
      rfl
    · rfl
  have none (order : List String) : candidates {} order = [] := by
    simp [candidates, expanded, missing, Except.toOption]
  have ran := (yields_reachableModels {} [nestedRef] [] _).mpr
    ⟨fun key _ => ⟨_, missing key⟩, by rw [none]; rfl, rfl⟩
  exact ⟨_, (yields_bind _ _ _ _ _).mpr ⟨_, _, ran, (yields_pure _ _ _ _).mpr ⟨rfl, rfl⟩⟩⟩

/-- A key that holds the prefix of references is looked up without it where models are listed,
although no reference leads to it. -/
theorem nested_reference_lists_model :
    (∀ key, Reachable (showNested.contents.flatMap refsOf)
        (fun key => ((friends.find? key).map refsOf).getD []) key →
      friends.find? key = Schemas.find? [] key) ∧
    ∃ api, (generateApi friendOptions showNested).outcome = (.ok api, []) ∧
      (∃ models notices, (api.models friends).outcome = (.ok models, notices) ∧ models ≠ []) ∧
      ∃ notices, (api.models []).outcome = (.ok [], notices) := by
  have single : showNested.contents.flatMap refsOf = ["#/components/schemas/User"] := by
    simp [showNested, showFriend, Operation.contents, Value.record, refsOf, refsOfEntries,
      refsOfEntry, schemaKey_nestedRef]
  constructor
  · intro key reached
    have only : key = "#/components/schemas/User" := by
      induction reached with
      | start member => simpa [single] using member
      | child _ member ih =>
          subst ih
          have absent : friends.find? "#/components/schemas/User" = none := rfl
          simp [absent] at member
    subst only
    rfl
  · obtain ⟨api, ran, directory, same⟩ : ∃ api,
        Yields (generateApi friendOptions showNested) [] api [] ∧
          ∃ directory, api.models = modelsFor friendOptions directory [nestedRef] := by
      unfold generateApi
      simp only [yields_bind, yields_liftExcept, showNested_shown, yields_pure]
      refine ⟨_, ⟨_, _, ⟨rfl, rfl⟩, "", _, ?_, rfl, rfl⟩, _, rfl⟩
      exact (yields_pure _ _ _ _).mpr ⟨rfl, rfl⟩
    refine ⟨api, ran, ?_, ?_⟩
    · rw [same]
      exact modelsFor_nested directory
    · rw [same]
      exact modelsFor_nothing directory

end TypedClient

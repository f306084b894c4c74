import TypedClient.Proofs.Schema.Contributors
import TypedClient.Proofs.Schema.Gathering

/-!
What a schema inherits from the parts of its `allOf`. Each part contributes the properties of the
objects that it is made of, a reference those of the schema that it leads to; of two contributions
the later one counts, and no contribution is lost.
-/

namespace TypedClient

/-- A reference is not to an alias, and a lone part stands beside properties: of an alias and of a
lone part the merged schema takes nothing. -/
def isDirect (schemas : Schemas) (value : Value) : Bool :=
  match value.ref? with
  | some (.text ref) => (schemas.find? (schemaKey ref)).all (·.ref?.isNone)
  | some _ => true
  | none => (partsOf value).length != 1 || (value.field "properties").isTrue

def AreNames (values : List Value) : Prop := ∃ names : List Scalar, values = names.map .scalar

/-- An object brings along properties and a list of names. -/
def BringsNames (holder : Entries) : Prop :=
  ∃ brought, Members.own holder = .ok brought ∧ AreNames brought.required

def bringsNames (holder : Entries) : Bool :=
  (Members.own holder >>= fun brought => distinctScalars brought.required).isOk

def isReadable (value : Value) : Bool :=
  match value.ref? with
  | some held => held.toText.isOk
  | none => (ownEntries value).all bringsNames

/-- All that a part leads to is direct. -/
def Direct (schemas : Schemas) (part : Value) : Prop :=
  ∀ value, LeadsTo schemas part value → isDirect schemas value = true

/-- All that a part leads to can be read. -/
def Readable (schemas : Schemas) (part : Value) : Prop :=
  ∀ value, LeadsTo schemas part value → isReadable value = true

section Steps

variable {schemas : Schemas} {part next target : Value} {key ref : String}

theorem Direct.step (direct : Direct schemas part) (step : PartStep schemas part next) :
    Direct schemas next :=
  fun value leads => direct value (leads.head step)

theorem Direct.narrow (direct : Direct schemas part) : Direct (schemas.without key) part := by
  intro value leads
  have whole := direct value leads.widen
  unfold isDirect at whole ⊢
  split
  · rename_i held
    rw [held] at whole
    dsimp only at whole
    rw [Schemas.find_without]
    split
    · rfl
    · exact whole
  · rfl
  · rename_i own
    rwa [own] at whole

theorem Direct.unaliased (direct : Direct schemas part) (held : part.ref? = some (.text ref))
    (found : schemas.find? (schemaKey ref) = some target) : target.ref? = none := by
  have checked := direct part .refl
  rw [isDirect, held] at checked
  simpa [found] using checked

theorem bringsNames_iff {holder : Entries} : bringsNames holder = true ↔ BringsNames holder := by
  have isOk_iff {α : Type} (result : Except Error α) :
      result.isOk = true ↔ ∃ value, result = .ok value := by
    cases result <;> simp [Except.isOk, Except.toBool]
  simp only [bringsNames, isOk_iff, bind_eq_ok, distinctScalars_eq_ok, BringsNames, AreNames]
  constructor
  · rintro ⟨distinct, brought, own, names, listed, -⟩
    exact ⟨brought, own, names, listed⟩
  · rintro ⟨brought, own, names, listed⟩
    exact ⟨_, brought, own, names, listed, rfl⟩

theorem Readable.step (readable : Readable schemas part) (step : PartStep schemas part next) :
    Readable schemas next :=
  fun value leads => readable value (leads.head step)

theorem Readable.narrow (readable : Readable schemas part) :
    Readable (schemas.without key) part :=
  fun value leads => readable value leads.widen

theorem Direct.merged_or_kept {entries : Entries} (direct : Direct schemas (.object entries))
    (own : (Value.object entries).ref? = none) :
    (∃ parts, Entries.find? entries "allOf" = some (.list parts) ∧
      needsMerge entries parts = true) ∨
    (∀ parts, Entries.find? entries "allOf" = some (.list parts) →
      needsMerge entries parts = false) ∧ partsOf (.object entries) = [] := by
  by_cases merges : ∃ parts, Entries.find? entries "allOf" = some (.list parts) ∧
      needsMerge entries parts = true
  · exact .inl merges
  · have kept : ∀ parts, Entries.find? entries "allOf" = some (.list parts) →
        needsMerge entries parts = false :=
      fun parts listed => Bool.eq_false_iff.mpr fun needed => merges ⟨parts, listed, needed⟩
    refine .inr ⟨kept, ?_⟩
    cases parts : partsOf (.object entries) with
    | nil => rfl
    | cons first rest =>
        have single := kept _ (listed_of_partsOf parts)
        rw [needsMerge, Bool.or_eq_false_iff] at single
        cases rest with
        | nil =>
            have checked := direct _ .refl
            rw [isDirect, own, parts] at checked
            cases single.2.symm.trans checked
        | cons second others => simp at single

end Steps

section Inheritance

open Members

/-- The objects bring along the members. -/
abbrev Bring : List Entries → List Members → Prop :=
  List.Forall₂ fun holder brought => own holder = .ok brought

variable {remaining : Schemas} {entries : Entries} {part value : Value} {parts : List Value}
  {members gathered : Members}

theorem gathers_parts
    (each : ∀ part ∈ parts, ∀ members gathered,
      gatherParts remaining [part] members = .ok gathered →
      ∃ brought, Bring (contributors remaining part) brought ∧ Gathers members brought gathered)
    (ran : gatherParts remaining parts members = .ok gathered) :
    ∃ brought, Bring (parts.flatMap (contributors remaining)) brought ∧
      Gathers members brought gathered := by
  induction parts generalizing members with
  | nil =>
      cases gatherParts_nil.symm.trans ran
      exact ⟨[], .nil, .refl _⟩
  | cons part rest ih =>
      rw [List.forall_mem_cons] at each
      rw [gatherParts_cons, bind_eq_ok] at ran
      obtain ⟨between, first, later⟩ := ran
      obtain ⟨front, brings, gathers⟩ := each.1 _ _ first
      obtain ⟨back, brings', gathers'⟩ := ih each.2 later
      exact ⟨front ++ back, List.rel_append brings brings', gathers.trans gathers'⟩

/-- What is merged holds under each key the last value that is brought along, and requires what is
required anywhere, without doubles. -/
structure IsMerge (flat : Entries) (brought : List Members) : Prop where
  properties : ∃ properties, Entries.field flat "properties" = .object properties ∧
    Entries.Distinct properties ∧
    ∀ key, Entries.valueAt? properties key = lastValue? brought key
  required : ∃ distinct, distinctScalars (brought.flatMap (·.required)) = .ok distinct ∧
    (Entries.field flat "required").givenElements = .ok (distinct.map .scalar)

theorem isMerge_of_merged (listed : Entries.find? entries "allOf" = some (.list parts))
    (needed : needsMerge entries parts = true)
    (each : ∀ gathered, gatherParts remaining parts {} = .ok gathered →
      ∃ brought, Bring (parts.flatMap (contributors remaining)) brought ∧
        Gathers {} brought gathered)
    (ran : flattenIn remaining (.object entries) = .ok value) :
    ∃ flat brought, value = .object flat ∧
      Bring (parts.flatMap (contributors remaining) ++ [entries]) brought ∧
      IsMerge flat brought := by
  rw [flattenIn_merged listed needed, bind_eq_ok] at ran
  obtain ⟨gathered, inner, ran⟩ := ran
  obtain ⟨whole, added, merges⟩ := (bind_eq_ok _ _ _).mp ran
  obtain ⟨front, brings, gathers⟩ := each gathered inner
  obtain ⟨last, brings', gathers'⟩ := Gathers.of_add added
  obtain ⟨properties, names, -, named, same⟩ := add_object.mp added
  have required : whole.required = gathered.required ++ names := by rw [← same]
  obtain ⟨flat, distinct, rfl, found, held, required⟩ := of_withMembers merges named required
  have all := gathers.trans gathers'
  refine ⟨flat, front ++ [last], rfl, List.rel_append brings (.cons brings' .nil), ?_, ?_⟩
  · exact ⟨_, held, all.distinct .nil, fun key => by rw [all.value]; exact Option.or_none⟩
  · have alike := all.required [] [] distinct
    simp only [List.nil_append, List.append_nil] at alike
    exact ⟨distinct, alike.mp found, required⟩

theorem IsMerge.gathers {flat : Entries} {brought : List Members} (merge : IsMerge flat brought)
    (added : members.add (.object flat) = .ok gathered) : Gathers members brought gathered := by
  obtain ⟨properties, held, distinct, last⟩ := merge.properties
  obtain ⟨names, found, required⟩ := merge.required
  obtain ⟨others, named, listed, given, rfl⟩ := add_object.mp added
  rw [held] at listed
  cases listed
  cases required.symm.trans given
  refine ⟨fun key => ?_, (AlikeRequired.refl _).append (.of_distinct found), fun before => ?_⟩
  · have single : Entries.insertAll [] properties = properties :=
      Entries.insertAll_of_distinct distinct
    rw [Entries.valueAt?_insertAll, single, last]
  · exact Entries.distinct_insertAll before properties

theorem gatherParts_direct (direct : part.ref? = none) :
    gatherParts remaining [part] members = flattenIn remaining part >>= members.add := by
  rw [gatherParts_own direct, gatherParts_none]
  simp only [bind_pure]

theorem gatherParts_target {ref : String} {target : Value} (held : part.ref? = some (.text ref))
    (found : remaining.find? (schemaKey ref) = some target) (own : target.ref? = none) :
    gatherParts remaining [part] members =
      gatherParts (remaining.without (schemaKey ref)) [target] members := by
  rw [gatherParts_opened held found, gatherParts_own own, gatherParts_none, gatherParts_none]

/-- What is no object is left as it is and brings nothing along. -/
theorem gatherParts_loose (loose : part.isObject = false) :
    gatherParts remaining [part] members = .ok members ∧
      partsOf part = [] ∧ ownEntries part = [] := by
  cases part with
  | object entries => cases loose
  | _ =>
      refine ⟨?_, rfl, rfl⟩
      rw [gatherParts_direct rfl, flattenIn]
      · rfl
      · simp

theorem gathers_part (direct : Direct remaining part)
    (ran : gatherParts remaining [part] members = .ok gathered) :
    ∃ brought, Bring (contributors remaining part) brought ∧
      Gathers members brought gathered := by
  induction remaining, part using contributors.induct generalizing members gathered with
  | case1 remaining part ref held target found ih =>
      have own := direct.unaliased held found
      rw [gatherParts_target held found own] at ran
      rw [contributors_opened held found]
      exact ih (direct.step (.target held found)).narrow ran
  | case2 remaining part ref held absent =>
      rw [gatherParts_absent held absent, gatherParts_nil] at ran
      cases ran
      rw [contributors_absent held absent]
      exact ⟨[], .nil, .refl _⟩
  | case3 remaining part value strange held =>
      rw [gatherParts_broken held (toText_of_strange strange)] at ran
      cases ran
  | case4 remaining part own ih =>
      rw [contributors_direct own]
      cases whole : part.isObject with
      | false =>
          obtain ⟨same, partless, bare⟩ := @gatherParts_loose remaining _ members whole
          cases same.symm.trans ran
          rw [partless, bare]
          exact ⟨[], .nil, .refl _⟩
      | true =>
          obtain ⟨entries, rfl⟩ := entries_of_isObject whole
          rw [gatherParts_direct own, bind_eq_ok] at ran
          obtain ⟨resolved, flattened, added⟩ := ran
          rcases direct.merged_or_kept own with ⟨parts, listed, needed⟩ | ⟨kept, partless⟩
          · have same := partsOf_of_listed listed
            have each : ∀ part ∈ parts, ∀ members gathered,
                gatherParts remaining [part] members = .ok gathered →
                ∃ brought, Bring (contributors remaining part) brought ∧
                  Gathers members brought gathered := by
              intro part member members gathered
              rw [← same] at member
              exact ih ⟨part, member⟩ (direct.step (.part own member))
            obtain ⟨flat, brought, rfl, brings, merge⟩ := isMerge_of_merged listed needed
              (fun _ => gathers_parts each) flattened
            rw [same]
            exact ⟨brought, brings, merge.gathers added⟩
          · rw [flattenIn_kept kept] at flattened
            cases flattened
            obtain ⟨brought, brings, gathers⟩ := Gathers.of_add added
            rw [partless]
            exact ⟨[brought], .cons brings .nil, gathers⟩

theorem BringsNames.exists_add {holder : Entries} (brings : BringsNames holder)
    (names : AreNames members.required) :
    ∃ gathered, members.add (.object holder) = .ok gathered ∧ AreNames gathered.required := by
  obtain ⟨brought, own, others, listed⟩ := brings
  obtain ⟨scalars, same⟩ := names
  obtain ⟨properties, required, held, given, rfl⟩ := add_object.mp own
  refine ⟨_, add_object.mpr ⟨properties, required, held, given, rfl⟩, scalars ++ others, ?_⟩
  rw [List.map_append, ← same, ← listed]
  rfl

theorem IsMerge.brings {flat : Entries} {brought : List Members} (merge : IsMerge flat brought) :
    BringsNames flat := by
  obtain ⟨properties, held, -, -⟩ := merge.properties
  obtain ⟨names, -, required⟩ := merge.required
  have listed : entriesOf (Entries.field flat "properties") = .ok properties := by
    rw [held]
    rfl
  exact ⟨_, add_object.mpr ⟨properties, _, listed, required, rfl⟩, names, rfl⟩

/-- What is merged from parts that can be gathered, in an object that can be read, can be made. -/
theorem exists_merged (listed : Entries.find? entries "allOf" = some (.list parts))
    (needed : needsMerge entries parts = true) (brings : BringsNames entries)
    (each : ∃ gathered, gatherParts remaining parts {} = .ok gathered ∧
      AreNames gathered.required) :
    ∃ value, flattenIn remaining (.object entries) = .ok value := by
  obtain ⟨gathered, ran, names⟩ := each
  obtain ⟨whole, added, names⟩ := brings.exists_add names
  obtain ⟨scalars, same⟩ := names
  have found := distinctScalars_eq_ok.mpr ⟨scalars, same, rfl⟩
  have merges : ∃ value, withMembers entries whole = .ok value := by
    rw [withMembers, found]
    exact ⟨_, rfl⟩
  obtain ⟨value, merges⟩ := merges
  refine ⟨value, ?_⟩
  rw [flattenIn_merged listed needed, ran]
  simp only [bind, Except.bind, added, merges]

theorem exists_gathered_parts
    (each : ∀ part ∈ parts, ∀ members, AreNames members.required →
      ∃ gathered, gatherParts remaining [part] members = .ok gathered ∧
        AreNames gathered.required)
    (names : AreNames members.required) :
    ∃ gathered, gatherParts remaining parts members = .ok gathered ∧
      AreNames gathered.required := by
  induction parts generalizing members with
  | nil => exact ⟨members, gatherParts_nil, names⟩
  | cons part rest ih =>
      rw [List.forall_mem_cons] at each
      obtain ⟨between, first, names⟩ := each.1 members names
      obtain ⟨gathered, later, names⟩ := ih each.2 names
      refine ⟨gathered, ?_, names⟩
      rw [gatherParts_cons, bind_eq_ok]
      exact ⟨between, first, later⟩

theorem exists_gathered (direct : Direct remaining part) (readable : Readable remaining part)
    (names : AreNames members.required) :
    ∃ gathered, gatherParts remaining [part] members = .ok gathered ∧
      AreNames gathered.required := by
  induction remaining, part using contributors.induct generalizing members with
  | case1 remaining part ref held target found ih =>
      have step := PartStep.target held found
      have own := direct.unaliased held found
      obtain ⟨gathered, ran, names⟩ :=
        ih (direct.step step).narrow (readable.step step).narrow names
      exact ⟨gathered, by rw [gatherParts_target held found own, ran], names⟩
  | case2 remaining part ref held absent =>
      exact ⟨members, by rw [gatherParts_absent held absent, gatherParts_nil], names⟩
  | case3 remaining part value strange held =>
      have checked := readable _ .refl
      rw [isReadable, held] at checked
      dsimp only at checked
      rw [toText_of_strange strange] at checked
      cases checked
  | case4 remaining part own ih =>
      cases whole : part.isObject with
      | false => exact ⟨members, (gatherParts_loose whole).1, names⟩
      | true =>
          obtain ⟨entries, rfl⟩ := entries_of_isObject whole
          have brings : BringsNames entries := by
            have checked := readable _ .refl
            rw [isReadable, own] at checked
            exact bringsNames_iff.mp (List.all_eq_true.mp checked entries (by simp [ownEntries]))
          rcases direct.merged_or_kept own with ⟨parts, listed, needed⟩ | ⟨kept, -⟩
          · have same := partsOf_of_listed listed
            have step : ∀ part ∈ parts, PartStep remaining (.object entries) part := by
              intro part member
              rw [← same] at member
              exact .part own member
            obtain ⟨value, flattened⟩ := exists_merged listed needed brings
              (exists_gathered_parts (fun part member members names => by
                have inside : part ∈ partsOf (.object entries) := by rwa [same]
                exact ih ⟨part, inside⟩ (direct.step (step part member))
                  (readable.step (step part member)) names) ⟨[], rfl⟩)
            obtain ⟨flat, brought, rfl, -, merge⟩ := isMerge_of_merged listed needed
              (fun _ => gathers_parts fun part member _ _ =>
                gathers_part (direct.step (step part member))) flattened
            obtain ⟨gathered, added, names⟩ := merge.brings.exists_add names
            exact ⟨gathered, by rw [gatherParts_direct own, flattened]; exact added, names⟩
          · obtain ⟨gathered, added, names⟩ := brings.exists_add names
            exact ⟨gathered, by rw [gatherParts_direct own, flattenIn_kept kept]; exact added,
              names⟩

end Inheritance

theorem isSome_lastValue? {brought : List Members} {key : Scalar} :
    (Members.lastValue? brought key).isSome = true ↔
      ∃ members ∈ brought, (Entries.valueAt? members.properties key).isSome = true := by
  simp [Members.lastValue?, List.findSome?_isSome_iff]

/-- A schema that is merged from its parts has the properties that it and its parts bring along, no
matter how deep, and no others; the last one to bring along a property gives its type, the schema
itself coming last. Names are required once if any of them requires them. -/
theorem flatten_keeps_inherited {schemas : Schemas} {entries : Entries} {parts : List Value}
    (listed : Entries.find? entries "allOf" = some (.list parts))
    (needed : needsMerge entries parts = true) (direct : ∀ part ∈ parts, Direct schemas part) :
    ((∀ part ∈ parts, Readable schemas part) → BringsNames entries →
      ∃ value, flatten schemas (.object entries) = .ok value) ∧
    ∀ value, flatten schemas (.object entries) = .ok value →
      ∃ flat properties brought distinct, value = .object flat ∧
        Bring (parts.flatMap (contributors schemas) ++ [entries]) brought ∧
        Entries.field flat "properties" = .object properties ∧
        (∀ key, (Entries.valueAt? properties key).isSome = true ↔
          ∃ holder own, ((∃ part ∈ parts, Contributes schemas part holder) ∨ holder = entries) ∧
            Members.own holder = .ok own ∧
            (Entries.valueAt? own.properties key).isSome = true) ∧
        (∀ key, Entries.valueAt? properties key = Members.lastValue? brought key) ∧
        distinctScalars (brought.flatMap (·.required)) = .ok distinct ∧
        (Entries.field flat "required").givenElements = .ok (distinct.map .scalar) := by
  have each : ∀ gathered, gatherParts schemas parts {} = .ok gathered →
      ∃ brought, Bring (parts.flatMap (contributors schemas)) brought ∧
        Members.Gathers {} brought gathered :=
    fun _ => gathers_parts fun part member _ _ => gathers_part (direct part member)
  refine ⟨fun readable brings => ?_, fun value ran => ?_⟩
  · exact exists_merged listed needed brings (exists_gathered_parts (fun part member _ names =>
      exists_gathered (direct part member) (readable part member) names) ⟨[], rfl⟩)
  · obtain ⟨flat, brought, rfl, brings, merge⟩ := isMerge_of_merged listed needed each ran
    obtain ⟨properties, held, -, last⟩ := merge.properties
    obtain ⟨distinct, found, required⟩ := merge.required
    have inherited (holder : Entries) : holder ∈ parts.flatMap (contributors schemas) ++ [entries] ↔
        (∃ part ∈ parts, Contributes schemas part holder) ∨ holder = entries := by
      simp only [List.mem_append, List.mem_flatMap, mem_contributors, List.mem_singleton]
    refine ⟨flat, properties, brought, distinct, rfl, brings, held, fun key => ?_, last, found,
      required⟩
    rw [last, isSome_lastValue?]
    constructor
    · rintro ⟨own, member, known⟩
      obtain ⟨holder, inside, made⟩ := partner_of_mem brings member
      exact ⟨holder, own, (inherited holder).mp inside, made, known⟩
    · rintro ⟨holder, own, inside, made, known⟩
      obtain ⟨own', member, made'⟩ := partner_of_mem brings.flip ((inherited holder).mpr inside)
      cases made.symm.trans made'
      exact ⟨own, member, known⟩

def stepsOf (schemas : Schemas) (value : Value) : List Value :=
  match value.ref? with
  | some (.text ref) => (schemas.find? (schemaKey ref)).toList
  | some _ => []
  | none => partsOf value

theorem mem_stepsOf {schemas : Schemas} {value next : Value}
    (step : PartStep schemas value next) : next ∈ stepsOf schemas value := by
  unfold stepsOf
  cases step with
  | part direct member => rwa [direct]
  | target held found => rw [held]; simpa using found

theorem leadsTo_closed {schemas : Schemas} {known : List Value} {part value : Value}
    (closed : ∀ whole ∈ known, stepsOf schemas whole ⊆ known) (member : part ∈ known)
    (leads : LeadsTo schemas part value) : value ∈ known := by
  induction leads with
  | refl => exact member
  | tail _ step ih => exact closed _ ih (mem_stepsOf step)

def typed (type : String) : Value := .record [("type", .text type)]

def refersTo (key : String) : Value := .record [("$ref", .text (refTo key))]

def having (properties : List (String × Value)) : Value :=
  .record [("properties", .record properties)]

def personParts : List Value := [refersTo "Named", having [("age", typed "integer")]]

def person : Entries :=
  [(.text "allOf", .list personParts),
    (.text "properties", .record [("id", typed "integer")])]

def namedSchema : Value :=
  .record [("allOf", .list [refersTo "Base", refersTo "Person", having [("name", typed "string")]]),
    ("required", .texts ["name", "id"])]

def baseSchema : Value :=
  .record [("properties", .record [("id", typed "string"), ("made", typed "string")]),
    ("required", .texts ["id"])]

def people : Schemas := [("Person", .object person), ("Named", namedSchema), ("Base", baseSchema)]

def peopleParts : List Value :=
  personParts ++ [namedSchema, refersTo "Base", refersTo "Person",
    having [("name", typed "string")], baseSchema, .object person]

theorem peopleParts_closed : ∀ whole ∈ peopleParts, stepsOf people whole ⊆ peopleParts := by
  have steps : peopleParts.map (stepsOf people) =
      [[namedSchema], [], [refersTo "Base", refersTo "Person", having [("name", typed "string")]],
        [baseSchema], [.object person], [], [], personParts] := by rfl
  rw [← List.forall_mem_map (P := (· ⊆ peopleParts)), steps]
  simp [peopleParts, personParts]

theorem direct_people : ∀ part ∈ personParts, Direct people part := by
  have checked : peopleParts.all (isDirect people) = true := by decide +kernel
  intro part member value leads
  exact List.all_eq_true.mp checked value
    (leadsTo_closed peopleParts_closed (List.mem_append_left _ member) leads)

theorem readable_people : ∀ part ∈ personParts, Readable people part := by
  have checked : peopleParts.all isReadable = true := by decide +kernel
  intro part member value leads
  exact List.all_eq_true.mp checked value
    (leadsTo_closed peopleParts_closed (List.mem_append_left _ member) leads)

/-- A person inherits from its base by way of what is named, and its own key replaces the base's. -/
theorem flatten_keeps_inherited_person : ∃ flat properties,
    flatten people (.object person) = .ok (.object flat) ∧
    Entries.field flat "properties" = .object properties ∧
    Entries.valueAt? properties (.text "id") = some (typed "integer") ∧
    ∀ name ∈ ["made", "name", "age"],
      (Entries.valueAt? properties (.text name)).isSome = true := by
  obtain ⟨returns, merged⟩ :=
    @flatten_keeps_inherited people person personParts rfl (by decide) direct_people
  obtain ⟨value, ran⟩ := returns readable_people (bringsNames_iff.mp (by decide +kernel))
  obtain ⟨flat, properties, brought, -, rfl, brings, held, known, last, -⟩ := merged value ran
  refine ⟨flat, properties, ran, held, ?_, ?_⟩
  · -- the schema itself comes last
    have backwards := List.rel_reverse brings
    rw [List.reverse_append, List.reverse_singleton, List.singleton_append,
      List.forall₂_cons_left_iff] at backwards
    obtain ⟨own, rest, made, -, order⟩ := backwards
    cases made
    rw [last, Members.lastValue?, order]
    rfl
  · have named : LeadsTo people (refersTo "Named") namedSchema := .single (.target rfl rfl)
    have base : LeadsTo people (refersTo "Named") baseSchema :=
      (named.tail (.part rfl List.mem_cons_self)).tail (.target rfl rfl)
    have given : LeadsTo people (refersTo "Named") (having [("name", typed "string")]) :=
      named.tail (.part rfl (.tail _ (.tail _ (.head _))))
    have brought (name : String) {part whole : Value} {holder : Entries} {own : Members}
        (member : part ∈ personParts) (leads : LeadsTo people part whole)
        (direct : whole.ref? = none) (held : holder ∈ ownEntries whole)
        (made : Members.own holder = .ok own)
        (there : (Entries.valueAt? own.properties (.text name)).isSome = true) :
        (Entries.valueAt? properties (.text name)).isSome = true :=
      (known _).mpr ⟨holder, own, .inl ⟨part, member, whole, leads, direct, held⟩, made, there⟩
    have first : refersTo "Named" ∈ personParts := .head _
    have second : having [("age", typed "integer")] ∈ personParts := .tail _ (.head _)
    simp only [List.forall_mem_cons]
    refine ⟨?_, ?_, ?_, fun _ none => absurd none List.not_mem_nil⟩
    · exact brought "made" first base rfl (.head _) rfl rfl
    · exact brought "name" first given rfl (.head _) rfl rfl
    · exact brought "age" second .refl rfl (.head _) rfl rfl

end TypedClient

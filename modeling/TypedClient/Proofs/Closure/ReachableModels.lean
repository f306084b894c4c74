import TypedClient.Proofs.Closure.BreadthFirst
import TypedClient.Proofs.Closure.Edges
import TypedClient.Proofs.Stateful
import TypedClient.Proofs.Schema.Alias

/-! The models that references lead to: the walk over the schemas visits exactly what is reachable,
and of the models of one file the first generic one is kept, or else the first. -/

namespace TypedClient

namespace Closure

/-- The model that a key expands to, if it does: the key names a model, its aliases end at a schema,
and that schema is a model. -/
def expansion (context : FieldContext) (key : String) : Except Error (Option Reached) :=
  if isModelName (SchemaName.parse context.mapping key).fileName then do
    match ← resolve context.schemas key with
    | none => return none
    | some (found, schema) =>
      if ← isModel context.schemas found schema then
        return some ⟨found, ← modelCode context found schema⟩
      else return none
  else return none

def expanded (context : FieldContext) (key : String) : Option Reached :=
  (expansion context key).toOption.join

/-- The keys that the interface of a key refers to. -/
def childKeys (context : FieldContext) (key : String) : List String :=
  ((expanded context key).map fun found => found.code.refs.map schemaKey).getD []

/-- A key that names a model and leads to no schema. -/
def isDangling (context : FieldContext) (key : String) : Bool :=
  isModelName (SchemaName.parse context.mapping key).fileName &&
    match resolve context.schemas key with
    | .ok none => true
    | _ => false

/-- The models that keys expand to, those that are left out apart. -/
def candidates (context : FieldContext) (keys : List String) : List Model :=
  ((keys.filterMap (expanded context)).filter fun found =>
    isAllowed context.ignores found.key).map Model.ofReached

variable {context : FieldContext} {key : String}

theorem expansion_eq_some_iff (found : Reached) :
    expansion context key = .ok (some found) ↔
      isModelName (SchemaName.parse context.mapping key).fileName = true ∧
      ∃ schema, resolve context.schemas key = .ok (some (found.key, schema)) ∧
        isModel context.schemas found.key schema = .ok true ∧
        modelCode context found.key schema = .ok found.code := by
  unfold expansion
  by_cases named : isModelName (SchemaName.parse context.mapping key).fileName = true
  · rw [if_pos named, bind_eq_ok]
    constructor
    · rintro ⟨_ | ⟨last, schema⟩, led, ran⟩
      · cases ran
      · obtain ⟨judged, own, ran⟩ := (bind_eq_ok _ _ _).mp ran
        cases judged with
        | false => cases ran
        | true =>
            obtain ⟨code, made, same⟩ := (bind_eq_ok _ _ _).mp ran
            cases same
            exact ⟨named, schema, led, own, made⟩
    · rintro ⟨-, schema, led, own, made⟩
      refine ⟨some (found.key, schema), led, ?_⟩
      simp only [bind_eq_ok]
      refine ⟨true, own, ?_⟩
      simp only [if_true, bind_eq_ok]
      exact ⟨found.code, made, rfl⟩
  · rw [if_neg named]
    constructor
    · intro same
      cases same
    · rintro ⟨shown, -⟩
      exact absurd shown named

theorem expanded_eq_some_iff (found : Reached) :
    expanded context key = some found ↔ expansion context key = .ok (some found) := by
  unfold expanded
  rcases expansion context key with failure | _ | other <;> simp [Except.toOption]

/-- Examining a key brings its expansion, and a notice where the key is dangling. -/
theorem yields_examineKey (context : FieldContext) (key : String) (before : List Notice)
    (found : Option Reached) (after : List Notice) :
    Yields (examineKey context key) before found after ↔
      expansion context key = .ok found ∧
        after = before ++ (if isDangling context key then [.noSchema key] else []) := by
  unfold examineKey expansion isDangling
  by_cases named : isModelName (SchemaName.parse context.mapping key).fileName = true
  · simp only [named, Bool.not_true, Bool.false_eq_true, if_false, if_true, yields_bind,
      yields_liftExcept, bind_eq_ok, Bool.true_and]
    cases led : resolve context.schemas key with
    | error failure => simp
    | ok target =>
        cases target with
        | none =>
            simp [yields_map, Noted.yields_notify, pure_eq_ok, and_comm]
        | some target =>
            obtain ⟨last, schema⟩ := target
            cases own : isModel context.schemas last schema with
            | error failure => simp [yields_bind, yields_liftExcept, bind_eq_ok, own]
            | ok judged =>
                cases judged with
                | false =>
                    simp [yields_bind, yields_liftExcept, yields_pure,
                      bind_eq_ok, pure_eq_ok, own, eq_comm (a := found)]
                | true =>
                    cases made : modelCode context last schema with
                    | error failure =>
                        simp [yields_bind, yields_map, yields_liftExcept,
                          bind_eq_ok, own, made]
                    | ok code =>
                        simp [yields_bind, yields_map, yields_liftExcept,
                          bind_eq_ok, own, made, and_comm]
  · simp [named, yields_pure, pure_eq_ok, eq_comm (a := found)]

/-- A walk succeeds where every visit does, and brings what the visits find. -/
theorem yields_visit {α : Type} {examine : String → Noted (Option α)}
    (children : α → List String) {finds : String → Except Error (Option α)}
    {tells : String → List Notice}
    (examines : ∀ key before found after, Yields (examine key) before found after ↔
      finds key = .ok found ∧ after = before ++ tells key)
    (unseen queue : List String) (before : List Notice) (found : List α) (after : List Notice) :
    let order := visited
      (fun key => (((finds key).toOption.join).map children).getD []) unseen queue
    Yields (visit examine children unseen queue) before found after ↔
      (∀ key ∈ order, ∃ result, finds key = .ok result) ∧
      found = order.filterMap (fun key => (finds key).toOption.join) ∧
      after = before ++ order.flatMap tells := by
  intro order
  induction unseen, queue using visit.induct children generalizing before found after with
  | case1 unseen =>
      rw [visit, yields_pure]
      simp [order, visited]
  | case2 unseen key rest ihNone ihSome =>
      rw [visit, yields_bind]
      simp only [examines]
      cases ran : finds key with
      | error failure =>
          simp only [reduceCtorEq, false_and, exists_false, false_iff, order, visited]
          rintro ⟨all, -⟩
          obtain ⟨result, same⟩ := all key (by simp)
          simp [ran] at same
      | ok result =>
          have made : (finds key).toOption.join = result := by rw [ran]; rfl
          cases result with
          | none =>
              have walk : order = key :: visited
                  (fun key => (((finds key).toOption.join).map children).getD []) unseen rest := by
                simp [order, visited, made, fresh, leave_nil]
              simp [walk, ihNone, ran]
              intro _ _
              simp only [List.filterMap_cons, made]
          | some value =>
              have walk : order = key :: visited
                  (fun key => (((finds key).toOption.join).map children).getD [])
                  (leave unseen (fresh unseen (children value)))
                  (rest ++ fresh unseen (children value)) := by
                simp [order, visited, made]
              simp [walk, yields_map, ihSome value, ran]
              rw [and_assoc, eq_comm (b := found), and_comm (a := after = _)]
              simp only [List.filterMap_cons, made]

theorem mem_schemas_of_visit {children : Reached → List String} {unseen queue : List String}
    {before after : List Notice} {reached : List Reached} {found : Reached}
    (ran : Yields (visit (examineKey context) children unseen queue) before reached after)
    (member : found ∈ reached) : ∃ schema, (found.key, schema) ∈ context.schemas := by
  obtain ⟨-, listed, -⟩ :=
    (yields_visit children (yields_examineKey context) unseen queue before reached after).mp ran
  rw [listed] at member
  obtain ⟨key, -, expands⟩ := List.mem_filterMap.mp member
  obtain ⟨-, schema, led, -⟩ :=
    (expansion_eq_some_iff found).mp ((expanded_eq_some_iff found).mp expands)
  exact ⟨schema, (ends_of_resolve led).1⟩

def rivals (candidates : List Model) (file : String) : List Model :=
  candidates.filter (·.fileName == file)

def firstGeneric (rivals : List Model) : Option Model :=
  (rivals.find? (!·.generics.isEmpty)).or rivals.head?

/-- One model for each file, in the order in which the files first occur. -/
structure Selection (candidates models : List Model) : Prop where
  files : models.map (·.fileName) = (candidates.map (·.fileName)).eraseDups
  kept : ∀ model ∈ models, firstGeneric (rivals candidates model.fileName) = some model

theorem firstGeneric_append {earlier : List Model} {kept : Model} (model : Model)
    (first : firstGeneric earlier = some kept) :
    firstGeneric (earlier ++ [model]) =
      some (if kept.generics.isEmpty && !model.generics.isEmpty then model else kept) := by
  unfold firstGeneric at *
  cases generic : earlier.find? (!·.generics.isEmpty) with
  | some found =>
      have opened := List.find?_some generic
      rw [generic, Option.some_or, Option.some.injEq] at first
      subst first
      have shut : found.generics.isEmpty = false := by simpa using opened
      simp [List.find?_append, generic, shut]
  | none =>
      rw [generic, Option.none_or] at first
      have closed : kept.generics.isEmpty = true := by
        simpa using List.find?_eq_none.mp generic kept (List.mem_of_head? first)
      by_cases plain : model.generics.isEmpty = true
      · simp [List.find?_append, generic, first, closed, plain]
      · simp [List.find?_append, generic, closed, plain]

theorem rivals_append (candidates : List Model) (model : Model) (file : String) :
    rivals (candidates ++ [model]) file =
      rivals candidates file ++ (if model.fileName = file then [model] else []) := by
  by_cases same : model.fileName = file
  · simp [rivals, same]
  · simp [rivals, same]

theorem fileName_keepModel (model kept : Model) :
    (if kept.fileName == model.fileName && kept.generics.isEmpty && !model.generics.isEmpty then
      model else kept).fileName = kept.fileName := by
  split
  · rename_i same
    simp only [Bool.and_eq_true, beq_iff_eq] at same
    exact same.1.1.symm
  · rfl

namespace Selection

variable {earlier models : List Model}

theorem mem_files (selected : Selection earlier models) (file : String) :
    file ∈ earlier.map (·.fileName) ↔ file ∈ models.map (·.fileName) := by
  rw [selected.files, List.mem_eraseDups]

theorem step (selected : Selection earlier models) (model : Model) :
    Selection (earlier ++ [model]) (keepModel models model) := by
  unfold keepModel
  by_cases known : models.any (·.fileName == model.fileName) = true
  · rw [if_pos known]
    have inside : model.fileName ∈ models.map (·.fileName) := by
      simpa using known
    constructor
    · rw [List.map_append, List.map_singleton,
        eraseDups_append_known ((selected.mem_files _).mpr inside), ← selected.files, List.map_map]
      exact List.map_congr_left fun kept _ => fileName_keepModel model kept
    · intro result member
      obtain ⟨kept, place, rfl⟩ := List.mem_map.mp member
      have first := selected.kept kept place
      rw [fileName_keepModel, rivals_append]
      by_cases same : kept.fileName = model.fileName
      · rw [if_pos same.symm, firstGeneric_append model first]
        simp [same]
      · rw [if_neg (Ne.symm same), List.append_nil, first]
        simp [same]
  · rw [if_neg known]
    have absent : model.fileName ∉ models.map (·.fileName) := by
      simpa using known
    have new := absent ∘ (selected.mem_files _).mp
    constructor
    · rw [List.map_append, List.map_append, List.map_singleton, eraseDups_append_new new,
        selected.files]
    · intro result member
      rw [rivals_append]
      rcases List.mem_append.mp member with place | place
      · have differs : model.fileName ≠ result.fileName := by
          intro same
          exact absent (same ▸ List.mem_map_of_mem place)
        rw [if_neg differs, List.append_nil, selected.kept result place]
      · obtain rfl := List.mem_singleton.mp place
        have none : rivals earlier result.fileName = [] := by
          rw [rivals, List.filter_eq_nil_iff]
          intro other inside
          simp only [beq_iff_eq]
          intro same
          exact new (same ▸ List.mem_map_of_mem inside)
        rw [none, if_pos rfl, List.nil_append]
        by_cases plain : result.generics.isEmpty = true
        · simp [firstGeneric, plain]
        · simp [firstGeneric, plain]

theorem eq_filterMap (selected : Selection earlier models) :
    models = (earlier.map (·.fileName)).eraseDups.filterMap
      fun file => firstGeneric (rivals earlier file) := by
  calc
    models = models.filterMap some := List.filterMap_some.symm
    _ = models.filterMap fun model => firstGeneric (rivals earlier model.fileName) :=
      List.filterMap_congr fun model member => (selected.kept model member).symm
    _ = _ := by rw [← selected.files, List.filterMap_map]; rfl

theorem iff_eq (candidates models : List Model) :
    Selection candidates models ↔ models = candidates.foldl keepModel [] := by
  have made : Selection candidates (candidates.foldl keepModel []) := by
    induction candidates using List.reverseRecOn with
    | nil => exact ⟨rfl, by simp⟩
    | append_singleton earlier model ih =>
        rw [List.foldl_append]
        exact ih.step model
  constructor
  · intro selected
    rw [selected.eq_filterMap, ← made.eq_filterMap]
  · rintro rfl
    exact made

theorem mem_candidates {candidates models : List Model} (selected : Selection candidates models)
    {model : Model} (member : model ∈ models) : model ∈ candidates := by
  have first := selected.kept model member
  have inside : model ∈ rivals candidates model.fileName := by
    rcases Option.or_eq_some_iff.mp first with generic | ⟨-, head⟩
    · exact List.mem_of_find?_eq_some generic
    · exact List.mem_of_head? head
  exact List.mem_of_mem_filter inside

end Selection

/-- Every reference of an interface that a key expands to is one that the schemas hold. -/
theorem childKeys_within (context : FieldContext) (key : String) :
    ∀ child ∈ childKeys context key, child ∈ keysWithin context.schemas := by
  intro child member
  unfold childKeys at member
  cases found : expanded context key with
  | none => simp [found] at member
  | some reached =>
      obtain ⟨-, schema, led, -, made⟩ :=
        (expansion_eq_some_iff reached).mp ((expanded_eq_some_iff reached).mp found)
      rw [found] at member
      obtain ⟨ref, inside, rfl⟩ := List.mem_map.mp member
      exact refs_modelCode (ends_of_resolve led).1 made ref inside

/-- The walk over the models succeeds where every key that it takes expands or is passed over. -/
theorem yields_reachableModels (context : FieldContext) (refs : List String)
    (models : List Model) (notices : List Notice) :
    let start := refs.map schemaKey
    let order := visited (childKeys context)
      ((keysWithin context.schemas).filter (!start.eraseDups.contains ·)) start.eraseDups
    (reachableModels context refs).outcome = (.ok models, notices) ↔
      (∀ key ∈ order, ∃ found, expansion context key = .ok found) ∧
      models = (candidates context order).foldl keepModel [] ∧
      notices = (order.filter (isDangling context)).map .noSchema := by
  intro start order
  have walk := yields_visit (fun found => found.code.refs.map schemaKey)
    (yields_examineKey context)
    ((keysWithin context.schemas).filter (!start.eraseDups.contains ·)) start.eraseDups []
  have told : order.flatMap (fun key => if isDangling context key then [.noSchema key] else []) =
      (order.filter (isDangling context)).map Notice.noSchema := by
    induction order with
    | nil => rfl
    | cons key rest ih =>
        rw [List.flatMap_cons, ih, List.filter_cons]
        split <;> simp
  have chosen : ∀ found, found = order.filterMap
      (fun key => (expansion context key).toOption.join) →
      (found.filter fun found => isAllowed context.ignores found.key).map Model.ofReached =
        candidates context order := by
    rintro found rfl
    rfl
  rw [Noted.yields_outcome, reachableModels, yields_bind]
  simp only [yields_pure]
  constructor
  · rintro ⟨found, between, ran, rfl, rfl⟩
    obtain ⟨all, made, noted⟩ := (walk found _).mp ran
    rw [List.nil_append] at noted
    exact ⟨all, by rw [chosen found made], noted.trans told⟩
  · rintro ⟨all, rfl, rfl⟩
    refine ⟨_, _, (walk _ _).mpr ⟨all, rfl, rfl⟩, congrArg (List.foldl keepModel []) ?_, ?_⟩
    · exact (chosen _ rfl).symm
    · rw [List.nil_append]
      exact told.symm

end Closure

theorem modelCode_of_reachable {context : FieldContext} {refs : List String} {models : List Model}
    {notices : List Notice} {model : Model}
    (ran : (reachableModels context refs).outcome = (.ok models, notices))
    (member : model ∈ models) :
    ∃ found schema, model = Model.ofReached found ∧ (found.key, schema) ∈ context.schemas ∧
      modelCode context found.key schema = .ok found.code := by
  obtain ⟨-, chosen, -⟩ := (Closure.yields_reachableModels context refs models notices).mp ran
  have selected := (Closure.Selection.iff_eq _ _).mpr chosen
  obtain ⟨found, kept, rfl⟩ := List.mem_map.mp (selected.mem_candidates member)
  obtain ⟨key, -, reached⟩ := List.mem_filterMap.mp (List.mem_filter.mp kept).1
  obtain ⟨-, schema, led, -, made⟩ :=
    (Closure.expansion_eq_some_iff found).mp ((Closure.expanded_eq_some_iff found).mp reached)
  exact ⟨found, schema, rfl, (ends_of_resolve led).1, made⟩

end TypedClient

import TypedClient.Api.Generate
import TypedClient.Proofs.Interface.Linked
import TypedClient.Proofs.Stateful

namespace TypedClient

theorem schema_queryParamOf {entries : Entries} {field : FieldOption}
    (ran : queryParamOf entries = .ok field) : field.schema = Entries.field entries "schema" := by
  have checked := (Checked.toExcept_eq_ok _ _).mp ran
  unfold FieldOption.check at checked
  simp only [Checked.seq_eq_ok, Checked.map_eq_ok] at checked
  obtain ⟨_, description, ⟨_, schema, ⟨_, required, ⟨name, -, rfl⟩, -, rfl⟩, read, rfl⟩, -,
    rfl⟩ := checked
  cases read
  rfl

namespace Hereditary

variable {P : Value → Prop} (hereditary : Hereditary P)

include hereditary

theorem firstOf {content value : Value} (whole : P content)
    (ran : firstOf content = .ok (some value)) : P value := by
  unfold TypedClient.firstOf at ran
  split at ran
  · cases ran
  · split at ran
    · rename_i entries _
      simp only [Except.ok.injEq] at ran
      obtain ⟨entry, first, rfl⟩ := Option.map_eq_some_iff.mp ran
      exact hereditary.entry whole entry (List.mem_of_head? first)
    · cases ran

theorem firstMediaSchema {holder : Entries} {schema : Option Value} (whole : P (.object holder))
    (ran : firstMediaSchema holder = .ok schema) : P (schema.getD .null) := by
  have null := hereditary.scalar .null
  have content := hereditary.field whole "content"
  unfold TypedClient.firstMediaSchema at ran
  obtain ⟨media, read, ran⟩ := (bind_eq_ok _ _ _).mp ran
  split at ran
  · cases ran
    exact null
  · have inner := hereditary.firstOf content read
    split at ran
    · cases ran
      exact null
    · split at ran
      · cases ran
        exact hereditary.field inner "schema"
      · cases ran

theorem bodySchema {body : Entries} {schema : Value} (whole : P (.object body))
    (ran : bodySchema body = .ok schema) : P schema := by
  unfold TypedClient.bodySchema at ran
  split at ran
  · cases ran
    exact whole
  · obtain ⟨found, read, rfl⟩ := (map_eq_ok _ _ _).mp ran
    exact hereditary.firstMediaSchema whole read

theorem responseSchema {responses : Entries} {schema : Value} (whole : P (.object responses))
    (ran : responseSchema responses = .ok schema) : P schema := by
  have each := hereditary.entry whole
  clear whole
  induction responses with
  | nil =>
      cases ran
      exact hereditary.scalar .null
  | cons entry rest ih =>
      unfold TypedClient.responseSchema at ran
      split at ran
      · split at ran
        · rename_i entries held
          obtain ⟨found, read, rfl⟩ := (map_eq_ok _ _ _).mp ran
          have own := each entry (by simp)
          rw [held] at own
          exact hereditary.firstMediaSchema own read
        · cases ran
          exact hereditary.scalar .null
      · exact ih ran fun other member => each other (by simp [member])

section Shown

variable {options : GenerateOptions} {url : UrlNames} {name : String}

theorem queryOf {parameters : List Entries} {query : Option (Model × List String)}
    (whole : ∀ entries ∈ parameters, P (.object entries))
    (ran : ShownSchemas.queryOf options url name parameters = .ok query) :
    ∀ made ∈ query, ∃ fields code, (∀ field ∈ fields, P field.schema) ∧
      queryCode { mapping := options.mapping, schemas := options.schemas } name fields = .ok code ∧
      made.1.typeNames = code.typeNames ∧ made.2 = code.refs := by
  intro made given
  obtain ⟨fields, read, ran⟩ := (bind_eq_ok _ _ _).mp ran
  split at ran
  · cases ran
    cases given
  · obtain ⟨own, built, same⟩ := (map_eq_ok _ _ _).mp ran
    cases same
    cases given
    obtain ⟨code, written, same⟩ := (bind_eq_ok _ _ _).mp built
    cases same
    refine ⟨fields, code, fun field member => ?_, written, rfl, rfl⟩
    obtain ⟨entries, inside, asked⟩ := source_of_mapM read member
    rw [schema_queryParamOf asked]
    exact hereditary.field (whole entries (List.mem_of_mem_filter inside)) _

theorem bodyOf {request : Option Entries} {body : Option (String × List String)}
    (whole : ∀ entries ∈ request, P (.object entries))
    (ran : ShownSchemas.bodyOf options request = .ok body) :
    ∀ shown ∈ body, ∃ schema, P schema ∧ shownType options schema = .ok shown := by
  intro shown given
  unfold ShownSchemas.bodyOf at ran
  split at ran
  · cases ran
    cases given
  · cases ran
    cases given
  · obtain ⟨schema, read, ran⟩ := (bind_eq_ok _ _ _).mp ran
    obtain ⟨own, shows, same⟩ := (bind_eq_ok _ _ _).mp ran
    cases same
    cases given
    exact ⟨schema, hereditary.bodySchema (whole _ rfl) read, shows⟩

theorem responseOf {responses : Entries} {response : Option (String × List String)}
    (whole : P (.object responses))
    (ran : ShownSchemas.responseOf options responses = .ok response) :
    ∀ shown ∈ response, ∃ schema, P schema ∧ shownType options schema = .ok shown := by
  intro shown given
  obtain ⟨schema, read, ran⟩ := (bind_eq_ok _ _ _).mp ran
  split at ran
  · cases ran
    cases given
  · obtain ⟨own, shows, same⟩ := (map_eq_ok _ _ _).mp ran
    cases same
    cases given
    exact ⟨schema, hereditary.responseSchema whole read, shows⟩

end Shown

end Hereditary

/-- A property of types and references that what is not there has. -/
theorem of_shown {R : List String → List String → Prop} (none : R [] (modelNames ""))
    {found : Option (String × List String)}
    (each : ∀ shown ∈ found, R shown.2 (modelNames shown.1)) :
    R ((found.map (·.2)).getD []) (modelNames ((found.map (·.1)).getD "")) := by
  cases found with
  | none => exact none
  | some shown => exact each shown rfl

theorem linked_shownType {options : GenerateOptions} (referenced : Referenced options.schemas)
    (unmapped : options.mapping = []) (whole : options.ignores = []) {schema : Value}
    {shown : String × List String} (sound : Sound options.schemas schema)
    (ran : shownType options schema = .ok shown) :
    Linked options.schemas shown.2 (modelNames shown.1) := by
  unfold shownType at ran
  obtain ⟨typed, found, ran⟩ := (bind_eq_ok _ _ _).mp ran
  have kept : stripIgnored options.ignores typed.type.render = typed.type.render := by
    simp [stripIgnored, whole]
  rw [kept] at ran
  cases ran
  exact linked_of_modelsOnly (Referenced.typeOf referenced unmapped sound found)

theorem modelNames_bodyType (shown : ShownSchemas) :
    modelNames (shown.bodyType.getD "") ⊆ modelNames ((shown.body.map (·.1)).getD "") := by
  unfold ShownSchemas.bodyType
  cases shown.body with
  | none => exact List.Subset.refl _
  | some body =>
      by_cases none : body.1 = ""
      · intro name member
        have any : modelNames "any" = [] := modelNames_baseType (by decide)
        simp [none, any] at member
      · simp [none]

theorem responseType_getD (shown : ShownSchemas) :
    shown.responseType.getD "" = (shown.response.map (·.1)).getD "" := by
  unfold ShownSchemas.responseType given
  cases shown.response with
  | none => rfl
  | some response =>
      by_cases none : response.1 = "" <;> simp [none, Option.filter]

theorem typeNames_subset (shown : ShownSchemas) :
    shown.typeNames ⊆ modelNames ((shown.body.map (·.1)).getD "") ++
      modelNames ((shown.response.map (·.1)).getD "") := by
  intro name member
  rw [ShownSchemas.typeNames, List.mem_eraseDups, List.mem_append, responseType_getD] at member
  exact List.mem_append.mpr (member.imp (fun own => modelNames_bodyType shown own) id)

/-- The names that the query interface of a function imports. -/
def Api.queryNames (api : Api) : List String := (api.queryModel.map (·.typeNames)).getD []

/-- The values of an operation that hold its schemas. -/
def Operation.contents (operation : Operation) : List Value :=
  operation.parameters.map .object ++ operation.requestBody.toList.map .object ++
    [.object operation.responses]

theorem Hereditary.ofOperation {P : Value → Prop} (hereditary : Hereditary P)
    {options : GenerateOptions} {url : UrlNames} {name : String} {operation : Operation}
    {shown : ShownSchemas} (whole : ∀ value ∈ operation.contents, P value)
    (read : ShownSchemas.ofOperation options url name operation = .ok shown) :
    (∀ made ∈ shown.query, ∃ fields code, (∀ field ∈ fields, P field.schema) ∧
      queryCode { mapping := options.mapping, schemas := options.schemas } name fields = .ok code ∧
      made.1.typeNames = code.typeNames ∧ made.2 = code.refs) ∧
    (∀ own ∈ shown.body, ∃ schema, P schema ∧ shownType options schema = .ok own) ∧
    ∀ own ∈ shown.response, ∃ schema, P schema ∧ shownType options schema = .ok own := by
  obtain ⟨query, queried, read⟩ := (bind_eq_ok _ _ _).mp read
  obtain ⟨body, bodied, read⟩ := (bind_eq_ok _ _ _).mp read
  obtain ⟨response, responded, same⟩ := (bind_eq_ok _ _ _).mp read
  cases same
  refine ⟨hereditary.queryOf ?_ queried, hereditary.bodyOf ?_ bodied,
    hereditary.responseOf (whole _ (by simp [Operation.contents])) responded⟩
  · exact fun entries member => whole _ (by simp [Operation.contents, member])
  · exact fun entries member => whole _ (by simp [Operation.contents, Option.mem_def.mp member])

theorem shown_of_generateApi {options : GenerateOptions} {operation : Operation} {api : Api}
    {notices : List Notice} (ran : (generateApi options operation).outcome = (.ok api, notices)) :
    ∃ url name shown, ShownSchemas.ofOperation options url name operation = .ok shown ∧
      api.typeNames = shown.typeNames ∧ api.queryModel = shown.query.map (·.1) ∧
      api.refs = shown.refs ∧ ∃ directory, api.models = modelsFor options directory api.refs := by
  rw [Noted.yields_outcome, generateApi] at ran
  obtain ⟨shown, _, read, ran⟩ := (yields_bind _ _ _ _ _).mp ran
  obtain ⟨source, _, -, ran⟩ := (yields_bind _ _ _ _ _).mp ran
  obtain ⟨rfl, -⟩ := (yields_pure _ _ _ _).mp ran
  exact ⟨_, _, shown, ((yields_liftExcept _ _ _ _).mp read).1, rfl, rfl, rfl, _, rfl⟩

theorem linked_generateApi {options : GenerateOptions} {operation : Operation} {api : Api}
    {notices : List Notice} (referenced : Referenced options.schemas)
    (unmapped : options.mapping = []) (whole : options.ignores = [])
    (sound : ∀ value ∈ operation.contents, Sound options.schemas value)
    (ran : (generateApi options operation).outcome = (.ok api, notices)) :
    Linked options.schemas api.refs (api.typeNames ++ api.queryNames) ∧
      ∃ directory, api.models = modelsFor options directory api.refs := by
  obtain ⟨url, name, shown, read, names, model, refs, directory, models⟩ :=
    shown_of_generateApi ran
  obtain ⟨asked, sent, received⟩ := (Sound.hereditary _).ofOperation sound read
  have query : Linked options.schemas ((shown.query.map (·.2)).getD []) api.queryNames := by
    rw [Api.queryNames, model]
    cases query : shown.query with
    | none => exact .nil
    | some made =>
        let context : FieldContext := { mapping := options.mapping, schemas := options.schemas }
        have known : Referenced context.schemas := referenced
        obtain ⟨fields, code, parts, written, own, rests⟩ := asked made query
        change Linked options.schemas made.2 made.1.typeNames
        rw [own, rests]
        exact linked_queryCode known unmapped rfl parts written
  have types {found : Option (String × List String)}
      (each : ∀ own ∈ found, ∃ schema, Sound options.schemas schema ∧
        shownType options schema = .ok own) :
      Linked options.schemas ((found.map (·.2)).getD [])
        (modelNames ((found.map (·.1)).getD "")) :=
    of_shown .unnamed fun own member => by
      obtain ⟨schema, parts, shows⟩ := each own member
      exact linked_shownType referenced unmapped whole parts shows
  refine ⟨?_, directory, models⟩
  have all := (query.append (types sent)).append (types received)
  rw [names, refs]
  refine all.subset (fun ref member => all.models ref (List.mem_eraseDups.mp member))
    (fun ref member => List.mem_eraseDups.mpr member) ?_
  intro name member
  rcases List.mem_append.mp member with own | query
  · rcases List.mem_append.mp (typeNames_subset _ own) with shown | shown
    · simp [shown]
    · simp [shown]
  · simp [query]

end TypedClient

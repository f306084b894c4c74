import TypedClient.Proofs.Naming.Declarable
import TypedClient.Proofs.Output.Run
import TypedClient.Proofs.Schema.RefFree

/-!
Functions whose schemas hold no references. If no literal of the schemas names a model, none is
imported: neither in the file of the function nor in that of its query parameters.
-/

namespace TypedClient

open TypeExpr

theorem modelNames_of_builtin {text : String}
    (among : NamesAmong (isBuiltin · = true) text.toList) : modelNames text = [] := by
  refine List.eq_nil_iff_forall_not_mem.mpr fun name member => ?_
  obtain ⟨known, foreign⟩ := mem_modelNames among member
  cases known.symm.trans foreign

namespace Standalone

/-- The type of such a schema rests on no reference and names no model. -/
theorem typeOf {context : TypeContext} {remaining : Schemas} {schema : Value} {typed : Typed}
    (whole : Standalone schema) (unmapped : context.mapping = [])
    (found : typeOf context remaining schema = .ok typed) :
    modelNames typed.type.render = [] ∧ typed.refs = [] :=
  ⟨modelNames_of_builtin (whole.text (namedTexts fun _ known => known) inert_of_isSilent
    unmapped found), whole.free.refs unmapped found⟩

theorem shownType {options : GenerateOptions} {schema : Value} {shown : String × List String}
    (whole : Standalone schema) (unmapped : options.mapping = [])
    (ran : shownType options schema = .ok shown) :
    modelNames shown.1 = [] ∧ shown.2 = [] := by
  obtain ⟨typed, found, same⟩ := (bind_eq_ok _ _ _).mp ran
  cases same
  have among := whole.text (namedTexts fun _ known => known) inert_of_isSilent unmapped found
  have native := whole.text NativeText.texts native_of_isSilent unmapped found
  exact ⟨modelNames_of_builtin (native.stripIgnored among options.ignores),
    whole.free.refs unmapped found⟩

/-- The code of fields with such schemas refers to nothing and imports nothing. -/
theorem rules {context : FieldContext} (unmapped : context.mapping = [])
    (whole : context.ignores = []) :
    CodeRules context Standalone (fun generics => generics.arguments = [])
      (fun code => code.refs = [] ∧ code.typeNames = []) where
  hereditary := hereditary
  empty := ⟨rfl, rfl⟩
  append left right := by simp [Code.append, left, right]
  text holds _ := holds
  named := by
    intro generics schema code later closed own ran
    unfold namedType at ran
    obtain ⟨typed, found, ran⟩ := (bind_eq_ok _ _ _).mp ran
    simp only [whole, List.isEmpty_nil, if_true, substitute_none closed] at ran
    cases ran
    obtain ⟨names, refs⟩ := own.typeOf unmapped found
    exact ⟨⟨refs, names⟩, closed⟩

theorem queryCode {context : FieldContext} (unmapped : context.mapping = [])
    (whole : context.ignores = []) {name : String} {fields : List FieldOption} {code : Code}
    (own : ∀ field ∈ fields, Standalone field.schema)
    (ran : queryCode context name fields = .ok code) : code.refs = [] ∧ code.typeNames = [] := by
  obtain ⟨parts, each, refs, names⟩ := (rules unmapped whole).queryCode rfl own ran
  have noRefs : parts.flatMap (·.refs) = [] :=
    List.flatMap_eq_nil_iff.mpr fun part member => (each part member).1
  have noNames : parts.flatMap (·.typeNames) = [] :=
    List.flatMap_eq_nil_iff.mpr fun part member => (each part member).2
  rw [refs, names, noRefs, noNames]
  exact ⟨rfl, rfl⟩

theorem generateApi {options : GenerateOptions} {operation : Operation} {api : Api}
    {notices : List Notice} (whole : ∀ value ∈ operation.contents, Standalone value)
    (unmapped : options.mapping = [])
    (ran : (generateApi options operation).outcome = (.ok api, notices)) :
    api.refs = [] ∧ api.typeNames = [] ∧ ∀ model ∈ api.queryModel, model.typeNames = [] := by
  obtain ⟨url, name, shown, read, names, model, refs, -⟩ := shown_of_generateApi ran
  obtain ⟨asked, sent, received⟩ := hereditary.ofOperation whole read
  have types {found : Option (String × List String)}
      (each : ∀ own ∈ found, ∃ schema, Standalone schema ∧
        TypedClient.shownType options schema = .ok own) :
      (found.map (·.2)).getD [] = [] ∧ modelNames ((found.map (·.1)).getD "") = [] := by
    cases found with
    | none => exact ⟨rfl, modelNames_empty⟩
    | some own =>
        obtain ⟨schema, parts, shows⟩ := each own rfl
        exact (parts.shownType unmapped shows).symm
  have query : ∀ made ∈ shown.query, made.1.typeNames = [] ∧ made.2 = [] := by
    intro made given
    obtain ⟨fields, code, parts, written, own, rests⟩ := asked made given
    let context : FieldContext := { mapping := options.mapping, schemas := options.schemas }
    have none := @queryCode context unmapped rfl name fields code parts written
    rw [own, rests]
    exact ⟨none.2, none.1⟩
  have queryRefs : (shown.query.map (·.2)).getD [] = [] := by
    cases given : shown.query with
    | none => rfl
    | some made => exact (query made given).2
  refine ⟨?_, ?_, ?_⟩
  · rw [refs, ShownSchemas.refs, queryRefs, (types sent).1, (types received).1]
    rfl
  · have inside := typeNames_subset shown
    rw [(types sent).2, (types received).2] at inside
    rw [names]
    exact List.subset_nil.mp inside
  · intro own given
    rw [model] at given
    obtain ⟨made, place, rfl⟩ := Option.map_eq_some_iff.mp given
    exact (query made place).1

end Standalone

/-- A schema without references whose literals are silent gets a type that names no model and rests
on no reference, if its type can be told at all. So the functions with such schemas, in their files
and in those of their query parameters, import nothing from the directory of the models. -/
theorem standalone_imports_nothing {options : GenerateOptions} (unmapped : options.mapping = []) :
    (∀ (remaining : Schemas) (schema : Value), RefFree schema → ChoicesSilent schema →
      (∀ typed, typeOf ⟨options.mapping, options.schemas⟩ remaining schema = .ok typed →
        modelNames typed.type.render = [] ∧ typed.refs = []) ∧
      (Typable schema →
        ∃ typed, typeOf ⟨options.mapping, options.schemas⟩ remaining schema = .ok typed)) ∧
    ∀ (operation : Operation) (api : Api) (notices : List Notice),
      (∀ value ∈ operation.contents, RefFree value ∧ ChoicesSilent value) →
      (generateApi options operation).outcome = (.ok api, notices) →
      api.typeNames = [] ∧ (∀ model ∈ api.queryModel, model.typeNames = []) ∧
      (∀ directory path modelDir queryDir writing,
        ownImports directory api path modelDir queryDir writing =
          queryImports directory api (Path.parent path) queryDir) ∧
      ∀ model ∈ api.queryModel, ∀ directory queryDir modelDir asGlobal,
        queryText directory model queryDir modelDir asGlobal = .ok model.sourceCode := by
  refine ⟨fun remaining schema free silent => ?_, fun operation api notices whole ran => ?_⟩
  · exact ⟨fun typed found => Standalone.typeOf ⟨free, silent⟩ unmapped found,
      fun typable => typable.typeOf free _ remaining⟩
  · have parts : ∀ value ∈ operation.contents, Standalone value :=
      fun value member => ⟨(whole value member).1, (whole value member).2⟩
    obtain ⟨-, names, query⟩ := Standalone.generateApi parts unmapped ran
    refine ⟨names, query, fun directory path modelDir queryDir writing => ?_,
      fun model given directory queryDir modelDir asGlobal => ?_⟩
    · have models : modelImports directory api (Path.parent path) modelDir writing = .ok [] := by
        simp [modelImports, names]
      rw [ownImports, models]
      cases queryImports directory api (Path.parent path) queryDir <;> rfl
    · simp [queryText, query model given]

section Levels

def levels : Value := .record [("type", .text "array"),
  ("items", .record [("enum", .list [.int 1, .text "it's", .null])])]

def pagedLevels : Operation := { pagedUsers with
  responses := [(.text "200", .record [("content", .record [("application/json",
    .record [("schema", levels)])])])] }

theorem typable_levels : Typable levels :=
  .array ⟨rfl, rfl, rfl, rfl⟩ rfl fun _ => .choices ⟨rfl, rfl, rfl, rfl⟩ rfl rfl

theorem standalone_pagedLevels :
    ∀ value ∈ levels :: pagedLevels.contents, RefFree value ∧ ChoicesSilent value := by
  have silent : ∀ item ∈ [Value.int 1, .text "it's", .null], isSilent item = true := by decide
  intro value member
  simp only [pagedLevels, pagedUsers, pagedOperation, bareOperation, Operation.contents,
    List.map_cons,
    List.map_nil, Option.toList, List.nil_append, List.append_nil, List.cons_append,
    List.mem_cons, List.not_mem_nil, or_false] at member
  constructor
  · intro held within
    rcases member with rfl | rfl | rfl <;>
      simp [levels, pageParameter, stringSchema, Value.record, entryWithin_object,
        entryWithin_list, entryWithin_scalar] at within
  · intro choices items within listed
    have only : choices = .list [.int 1, .text "it's", .null] := by
      rcases member with rfl | rfl | rfl
      · simpa [levels, Value.record, entryWithin_object, entryWithin_list,
          entryWithin_scalar] using within
      · simp [pageParameter, stringSchema, Value.record, entryWithin_object,
          entryWithin_scalar] at within
      · simpa [levels, Value.record, entryWithin_object, entryWithin_list,
          entryWithin_scalar] using within
    rw [only] at listed
    cases listed
    exact silent

theorem generateApi_pagedLevels : ∃ api, (generateApi {} pagedLevels).outcome = (.ok api, []) := by
  obtain ⟨typed, found⟩ := typable_levels.typeOf (standalone_pagedLevels levels (.head _)).1 {} []
  obtain ⟨query, asked⟩ := queryOf_page pagedLevels.urlNames (pagedLevels.queryName none)
  let own := (stripIgnored [] typed.type.render, typed.refs)
  let shown : ShownSchemas := { query := some query, response := some own }
  have shows : shownType {} levels = .ok own := by
    rw [shownType, found]
    rfl
  have received : ShownSchemas.responseOf {} pagedLevels.responses = .ok (some own) := by
    have schema : responseSchema pagedLevels.responses = .ok levels := by rfl
    rw [ShownSchemas.responseOf, schema]
    change some <$> shownType {} levels = _
    rw [shows]
    rfl
  have read : ShownSchemas.ofOperation {} pagedLevels.urlNames (pagedLevels.queryName none)
      pagedLevels = .ok shown := by
    have parameters : pagedLevels.parameters = [pageParameter] := rfl
    rw [ShownSchemas.ofOperation, parameters, asked, received]
    rfl
  have strings : ∀ param ∈ (pagedLevels.context {} shown).pathParams,
      param.schema = stringSchema := by
    have names : pagedLevels.urlNames = pagedUsers.urlNames := rfl
    rw [Operation.context_pathParams, names, urlNames_pagedUsers]
    exact fun param member => absurd member List.not_mem_nil
  obtain ⟨types, sourced⟩ := @yields_sourceOf_strings {} _ rfl rfl rfl strings []
  exact ⟨_, (yields_generateApi {} pagedLevels _ [] []).mpr ⟨shown, _, read, sourced, rfl⟩⟩

theorem standalone_imports_nothing_levels : ∃ typed api,
    typeOf {} [] levels = .ok typed ∧ modelNames typed.type.render = [] ∧
    (generateApi {} pagedLevels).outcome = (.ok api, []) ∧ api.typeNames = [] := by
  obtain ⟨schemas, functions⟩ := @standalone_imports_nothing {} rfl
  obtain ⟨free, silent⟩ := standalone_pagedLevels levels (.head _)
  obtain ⟨unnamed, exists_type⟩ := schemas [] levels free silent
  obtain ⟨typed, found⟩ := exists_type typable_levels
  obtain ⟨api, made⟩ := generateApi_pagedLevels
  have names := functions pagedLevels api []
    (fun value member => standalone_pagedLevels value (.tail _ member)) made
  exact ⟨typed, api, found, (unnamed typed found).1, made, names.1⟩

end Levels

end TypedClient

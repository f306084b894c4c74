import TypedClient.Proofs.Schema.Parts

namespace TypedClient

/-- A property of code that holds of the empty code, of what is appended and of a new text, and
that the types of schemas have; `Schema` passes to parts, and `Names` is kept by each type. -/
structure CodeRules (context : FieldContext) (Schema : Value → Prop) (Names : Generics → Prop)
    (Holds : Code → Prop) : Prop where
  hereditary : Hereditary Schema
  empty : Holds {}
  append : ∀ {first second}, Holds first → Holds second → Holds (first.append second)
  text : ∀ {code}, Holds code → ∀ text, Holds { code with text := text }
  named : ∀ {generics schema code later}, Names generics → Schema schema →
    namedType context generics schema = .ok (code, later) → Holds code ∧ Names later

namespace PassesDown

variable {P : Value → Prop} (passes : PassesDown P) {schema : Value}

include passes

theorem inlineProperties {properties : Entries} (whole : P schema)
    (found : inlineProperties? schema = some properties) : P (.object properties) := by
  unfold inlineProperties? at found
  split at found
  · simp only at found
    split at found
    · cases found
    · split at found
      · rename_i held
        cases found
        exact passes.find whole held
      · cases found
  · cases found

theorem arrayItems {items : Value} (whole : P schema) (found : arrayItems? schema = some items) :
    P items := by
  unfold arrayItems? at found
  split at found
  · split at found
    · exact passes.find whole found
    · cases found
  · cases found

end PassesDown

theorem fieldCode_eq_ok {indent : String} {required : Value} {key : Scalar} {schema : Value}
    {type code : Code} (ran : fieldCode indent required key schema type = .ok code) :
    ∃ text, code = { type with text := text } := by
  unfold fieldCode at ran
  split at ran
  · simp only [bind_eq_ok, pure_eq_ok] at ran
    obtain ⟨texts, -, needed, -, rfl⟩ := ran
    exact ⟨_, rfl⟩
  · cases ran

namespace CodeRules

variable {context : FieldContext} {Schema : Value → Prop} {Names : Generics → Prop}
  {Holds : Code → Prop}

mutual

theorem schemaCode (rules : CodeRules context Schema Names Holds) (indent : String)
    (generics later : Generics) (schema : Value) (code : Code) (names : Names generics)
    (whole : Schema schema)
    (ran : schemaCode context indent generics schema = .ok (code, later)) :
    Holds code ∧ Names later := by
  rw [TypedClient.schemaCode] at ran
  split at ran
  · rename_i properties own
    have smaller := sizeOf_inlineProperties? own
    simp only [bind_eq_ok, pure_eq_ok] at ran
    obtain ⟨⟨body, after⟩, inner, same⟩ := ran
    cases same
    have given := rules.hereditary.entry (rules.hereditary.inlineProperties whole own)
    obtain ⟨holds, kept⟩ := fieldsCode rules _ _ generics after properties body names given inner
    exact ⟨rules.text holds _, kept⟩
  · split at ran
    · rename_i items listed
      have smaller := sizeOf_arrayItems? listed
      split at ran
      · simp only [bind_eq_ok, pure_eq_ok] at ran
        obtain ⟨⟨item, after⟩, inner, same⟩ := ran
        cases same
        have given := rules.hereditary.arrayItems whole listed
        obtain ⟨holds, kept⟩ := schemaCode rules indent generics after items item names given inner
        exact ⟨rules.text holds _, kept⟩
      · exact rules.named names whole ran
    · exact rules.named names whole ran
termination_by sizeOf schema
decreasing_by all_goals exact smaller

theorem fieldsCode (rules : CodeRules context Schema Names Holds) (indent : String)
    (required : Value) (generics later : Generics) (properties : Entries) (code : Code)
    (names : Names generics) (given : ∀ entry ∈ properties, Schema entry.2)
    (ran : fieldsCode context indent required generics properties = .ok (code, later)) :
    Holds code ∧ Names later := by
  match properties, given, ran with
  | [], given, ran =>
      rw [TypedClient.fieldsCode] at ran
      cases ran
      exact ⟨rules.empty, names⟩
  | (key, schema) :: rest, given, ran =>
      have smaller : sizeOf schema < sizeOf ((key, schema) :: rest) := by
        simp only [List.cons.sizeOf_spec, Prod.mk.sizeOf_spec]
        omega
      have shorter : sizeOf rest < sizeOf ((key, schema) :: rest) := by
        simp only [List.cons.sizeOf_spec]
        omega
      rw [TypedClient.fieldsCode] at ran
      simp only [bind_eq_ok, pure_eq_ok] at ran
      obtain ⟨⟨type, between⟩, typed, field, declared, ⟨others, after⟩, inner, same⟩ := ran
      cases same
      obtain ⟨holds, kept⟩ := schemaCode rules indent generics between schema type names
        (given (key, schema) (by simp)) typed
      obtain ⟨more, kept⟩ := fieldsCode rules indent required between after rest others kept
        (fun entry member => given entry (by simp [member])) inner
      obtain ⟨text, rfl⟩ := fieldCode_eq_ok declared
      exact ⟨rules.append (rules.text holds text) more, kept⟩
termination_by sizeOf properties
decreasing_by all_goals assumption

end

theorem declared_of_propertiesHave {flat : Value} {entries : Entries}
    (given : PropertiesHave Schema flat)
    (read : declaredFields (flat.field "properties") = .ok entries) :
    ∀ entry ∈ entries, Schema entry.2 := by
  unfold declaredFields at read
  split at read
  · cases read
    simp
  · split at read
    · rename_i held
      cases read
      exact given entries (by rw [held]; rfl)
    · cases read

/-- The code of a model's fields, if the schema and the collection have the property. -/
theorem modelCode (rules : CodeRules context Schema Names Holds) {ref : String} {schema : Value}
    {code : ModelCode} (known : ∀ entry ∈ context.schemas, Schema entry.2) (whole : Schema schema)
    (names : Names (.ofTypeName (SchemaName.parse context.mapping (schemaKey ref)).typeName))
    (ran : modelCode context ref schema = .ok code) :
    ∃ body, Holds body ∧ code.refs = body.refs ∧
      code.typeNames = importedNames code.fileName code.generics body.typeNames := by
  unfold TypedClient.modelCode at ran
  simp only [bind_eq_ok, pure_eq_ok] at ran
  obtain ⟨flat, flattened, entries, read, ⟨body, generics⟩, fields, rfl⟩ := ran
  have given := propertiesHave_flattenIn rules.hereditary _ _ _ known whole flattened
  obtain ⟨holds, -⟩ := fieldsCode rules _ _ _ _ entries body names
    (declared_of_propertiesHave given read) fields
  exact ⟨body, holds, rfl, rfl⟩

/-- The code of query parameters, if their schemas have the property. -/
theorem queryCode (rules : CodeRules context Schema Names Holds) {name : String}
    {fields : List FieldOption} {code : Code} (names : Names {})
    (whole : ∀ field ∈ fields, Schema field.schema)
    (ran : queryCode context name fields = .ok code) :
    ∃ parts : List Code, (∀ part ∈ parts, Holds part) ∧ code.refs = parts.flatMap (·.refs) ∧
      code.typeNames = (parts.flatMap (·.typeNames)).eraseDups := by
  unfold TypedClient.queryCode at ran
  obtain ⟨parts, each, same⟩ := (bind_eq_ok _ _ _).mp ran
  cases same
  refine ⟨parts, fun part member => ?_, rfl, rfl⟩
  obtain ⟨field, inside, made⟩ := source_of_mapM each member
  obtain ⟨⟨type, later⟩, typed, made⟩ := (bind_eq_ok _ _ _).mp made
  obtain ⟨texts, -, same⟩ := (bind_eq_ok _ _ _).mp made
  cases same
  exact rules.text (rules.schemaCode _ _ _ _ _ names (whole field inside) typed).1 _

end CodeRules

theorem fileName_modelCode {context : FieldContext} {ref : String} {schema : Value}
    {code : ModelCode} (ran : modelCode context ref schema = .ok code) :
    code.fileName = (SchemaName.parse context.mapping (schemaKey ref)).fileName := by
  unfold modelCode at ran
  simp only [bind_eq_ok, pure_eq_ok] at ran
  obtain ⟨flat, -, entries, -, ⟨body, generics⟩, -, rfl⟩ := ran
  rfl

end TypedClient

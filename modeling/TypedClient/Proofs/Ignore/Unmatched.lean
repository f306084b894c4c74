import TypedClient.Proofs.Api.Shown
import TypedClient.Proofs.Closure.Imports
import TypedClient.Proofs.Ignore.Document
import TypedClient.Proofs.Ignore.Steady

/-! Ignore lists that a document cannot tell apart: what is generated with them is the same. An
entry that matches nothing in the document makes no difference. -/

namespace TypedClient

/-- The names that a document compares with entries: paths, keys and wrappers of its types. -/
inductive DocumentName (context : TypeContext) (operations : List Operation) : String → Prop
  | path {operation : Operation} (member : operation ∈ operations) :
      DocumentName context operations operation.path
  | key {entry : String × Value} (member : entry ∈ context.schemas) :
      DocumentName context operations entry.1
  | wrapper {type name : String} (shown : ShownType context operations type)
      (plain : isPlainType type = true) (member : name ∈ (TypeNode.parse type).wrappers)
      (lookedUp : IsLookedUp name) : DocumentName context operations name

/-- Two ignore lists that allow the same keys and leave the same of every type that is shown. -/
structure Alike (context : TypeContext) (operations : List Operation)
    (first second : List Ignore) : Prop where
  keys : ∀ entry ∈ context.schemas, isAllowed first entry.1 = isAllowed second entry.1
  types : ∀ type, ShownType context operations type →
    stripIgnored first type = stripIgnored second type
  given : ∀ type, ShownType context operations type → type = "" → first.isEmpty = second.isEmpty

namespace Alike

section Collection

variable {context : TypeContext} {operations : List Operation} {first second : List Ignore}
  (alike : Alike context operations first second)

include alike

theorem allowedType {type : String} (shown : ShownType context operations type) :
    allowedType ⟨context, first⟩ type = TypedClient.allowedType ⟨context, second⟩ type := by
  by_cases empty : type = ""
  · rw [empty, allowedType_empty, allowedType_empty, alike.given type shown empty]
  · rw [allowedType_given _ empty, allowedType_given _ empty, alike.types type shown]

theorem interfacePieces {entry : String × Value} {flat : Value} (member : entry ∈ context.schemas)
    (flattened : flatten context.schemas entry.2 = .ok flat) :
    interfacePieces ⟨context, first⟩ flat =
      TypedClient.interfacePieces ⟨context, second⟩ flat := by
  rw [interfacePieces_allowed, interfacePieces_allowed ⟨context, second⟩]
  cases plain : TypedClient.interfacePieces ⟨context, []⟩ flat with
  | error failure => rfl
  | ok pieces =>
      refine congrArg Except.ok (List.map_congr_left fun piece inside => ?_)
      cases piece with
      | fixed text => rfl
      | type type refs =>
          have own : FieldType context entry.2 type :=
            ⟨flat, pieces, refs, flattened, plain, inside⟩
          rw [Piece.allowed, Piece.allowed, alike.allowedType (.field member own)]

theorem modelCode {ref : String} {entry : String × Value} (member : entry ∈ context.schemas) :
    modelCode ⟨context, first⟩ ref entry.2 =
      TypedClient.modelCode ⟨context, second⟩ ref entry.2 := by
  rw [modelCode_eq, modelCode_eq]
  dsimp only
  cases flattened : flatten context.schemas entry.2 with
  | error failure => rfl
  | ok flat =>
      simp only [bind, Except.bind, alike.interfacePieces member flattened]
      rfl

theorem examineKey (key : String) :
    examineKey ⟨context, first⟩ key = TypedClient.examineKey ⟨context, second⟩ key := by
  rw [TypedClient.examineKey, TypedClient.examineKey]
  dsimp only
  split
  · rfl
  · apply bind_congr_yields
    intro before target after ran
    obtain ⟨led, -⟩ := (yields_liftExcept _ _ _ _).mp ran
    cases target with
    | none => rfl
    | some target => simp only [alike.modelCode (ends_of_resolve led).1]

theorem reachableModels (refs : List String) :
    reachableModels ⟨context, first⟩ refs = TypedClient.reachableModels ⟨context, second⟩ refs := by
  have examines :
      TypedClient.examineKey ⟨context, first⟩ = TypedClient.examineKey ⟨context, second⟩ :=
    funext alike.examineKey
  rw [TypedClient.reachableModels, TypedClient.reachableModels, examines]
  apply bind_congr_yields
  intro before reached after ran
  dsimp only
  have allowed : (reached.filter fun found => isAllowed first found.key) =
      reached.filter fun found => isAllowed second found.key := by
    apply List.filter_congr
    intro found member
    obtain ⟨schema, inside⟩ := Closure.mem_schemas_of_visit ran member
    exact alike.keys _ inside
  rw [allowed]

theorem stripShown {found : Except Error (Option (String × List String))}
    (each : ∀ type refs, found = .ok (some (type, refs)) → ShownType context operations type) :
    Option.map (stripShown first) <$> found =
      Option.map (TypedClient.stripShown second) <$> found := by
  match found, each with
  | .error failure, _ => rfl
  | .ok none, _ => rfl
  | .ok (some (type, refs)), each =>
      have same := alike.types type (each type refs rfl)
      change Except.ok (some (stripIgnored first type, refs)) = .ok (some (_, refs))
      rw [same]

end Collection

section Operations

variable {options : GenerateOptions} {operations : List Operation} {first second : List Ignore}
  (alike : Alike ⟨options.mapping, options.schemas⟩ operations first second)

include alike

theorem ofOperation {operation : Operation} (member : operation ∈ operations) (url : UrlNames)
    (name : String) :
    ShownSchemas.ofOperation { options with ignores := first } url name operation =
      ShownSchemas.ofOperation { options with ignores := second } url name operation := by
  have bodies : ShownSchemas.bodyOf { options with ignores := first } operation.requestBody =
      ShownSchemas.bodyOf { options with ignores := second } operation.requestBody := by
    rw [bodyOf_strip, bodyOf_strip { options with ignores := second }]
    exact alike.stripShown fun type refs shown => .function member (.body shown)
  have responses : ShownSchemas.responseOf { options with ignores := first } operation.responses =
      ShownSchemas.responseOf { options with ignores := second } operation.responses := by
    rw [responseOf_strip, responseOf_strip { options with ignores := second }]
    exact alike.stripShown fun type refs shown => .function member (.response shown)
  rw [ShownSchemas.ofOperation, ShownSchemas.ofOperation, bodies, responses]
  rfl

end Operations

end Alike

/-- An api with its models worked out for one collection. -/
def Api.settled (schemas : Schemas) (api : Api) : Api :=
  { api with models := fun _ => api.models schemas }

namespace Alike

section Functions

variable {options : GenerateOptions} {operations : List Operation} {first second : List Ignore}
  (alike : Alike ⟨options.mapping, options.schemas⟩ operations first second)

include alike

theorem modelsFor (directory : String) (refs : List String) :
    modelsFor { options with ignores := first } directory refs options.schemas =
      TypedClient.modelsFor { options with ignores := second } directory refs options.schemas := by
  have models := alike.reachableModels refs
  rw [TypedClient.modelsFor, TypedClient.modelsFor]
  exact congrArg (· >>= _) models

theorem generateApi {operation : Operation} (member : operation ∈ operations) :
    Api.settled options.schemas <$> generateApi { options with ignores := first } operation =
      Api.settled options.schemas <$>
        TypedClient.generateApi { options with ignores := second } operation := by
  rw [TypedClient.generateApi, TypedClient.generateApi, alike.ofOperation member]
  simp only [map_bind, map_pure, Api.settled, alike.modelsFor]
  rfl

theorem generateApis (paths : ∀ operation ∈ operations,
      isAllowed first operation.path = isAllowed second operation.path) :
    List.map (Api.settled options.schemas) <$>
        generateApis { options with ignores := first } operations =
      List.map (Api.settled options.schemas) <$>
        TypedClient.generateApis { options with ignores := second } operations := by
  have allowed : (operations.filter fun operation => isAllowed first operation.path) =
      operations.filter fun operation => isAllowed second operation.path :=
    List.filter_congr paths
  -- several operations drop the function name of the options, which no ignore list looks at
  have each (options' : GenerateOptions) (mapping : options'.mapping = options.mapping)
      (schemas : options'.schemas = options.schemas) :
      List.map (Api.settled options.schemas) <$>
          (operations.filter fun operation => isAllowed second operation.path).mapM
            (TypedClient.generateApi { options' with ignores := first }) =
        List.map (Api.settled options.schemas) <$>
          (operations.filter fun operation => isAllowed second operation.path).mapM
            (TypedClient.generateApi { options' with ignores := second }) := by
    apply map_mapM_congr
    intro operation member
    rw [← schemas] at alike ⊢
    rw [← mapping] at alike
    exact alike.generateApi (List.mem_of_mem_filter member)
  rw [TypedClient.generateApis, TypedClient.generateApis]
  by_cases short : operations.length ≤ 1
  · simp only [if_pos short, allowed]
    exact each options rfl rfl
  · simp only [if_neg short, allowed]
    exact each { options with funcName := none } rfl rfl

end Functions

end Alike

section Insertion

variable {context : TypeContext} {operations : List Operation} {before after : List Ignore}
  {entry : String}

theorem alike_insert
    (unmatched : ∀ name, DocumentName context operations name → Misses entry name)
    (lasting : before ++ after = [] → ∀ type, ShownType context operations type → Lasting type) :
    Alike context operations (before ++ .name entry :: after) (before ++ after) where
  keys schema member := isAllowed_insert (unmatched _ (.key member))
  types type shown := stripIgnored_insert
    (fun plain name member lookedUp => unmatched name (.wrapper shown plain member lookedUp))
    fun alone => lasting alone type shown
  given := by
    intro type shown empty
    by_cases alone : before ++ after = []
    · exact absurd empty (ne_empty_of_lasting (lasting alone type shown))
    · have filled : (before ++ after).isEmpty = false := by simpa using alone
      simp [filled]

/-- An entry that meets no path, no key and no name around a type of the document changes neither
the functions nor the models that are generated. Where it is the only entry, the types of the
document have to last when they are read and printed again. -/
theorem unmatched_entry_changes_nothing (options : GenerateOptions) (operations : List Operation)
    (before after : List Ignore) (entry : String)
    (unmatched : ∀ name, DocumentName ⟨options.mapping, options.schemas⟩ operations name →
      Misses entry name)
    (lasting : before ++ after = [] → ∀ type,
      ShownType ⟨options.mapping, options.schemas⟩ operations type → Lasting type) :
    List.map (Api.settled options.schemas) <$>
        generateApis { options with ignores := before ++ .name entry :: after } operations =
      List.map (Api.settled options.schemas) <$>
        generateApis { options with ignores := before ++ after } operations := by
  apply (alike_insert unmatched lasting).generateApis
  intro operation member
  exact isAllowed_insert (unmatched _ (.path member))

end Insertion

section Steady

variable {context : TypeContext} {operations : List Operation} {Known : String → Prop}

/-- The types that a document shows are steady, if the names in it are. -/
theorem SteadyContext.shownType (steady : SteadyContext context Known)
    (bodies : ∀ operation ∈ operations, ∀ value ∈ operation.contents,
      SteadyValue context.mapping Known value)
    {type : String} (shown : ShownType context operations type) : Steady Known type := by
  have parts := SteadyValue.hereditary context.mapping Known
  have written {schema : Value} {refs : List String}
      (whole : SteadyValue context.mapping Known schema)
      (shows : TypedClient.shownType { mapping := context.mapping, schemas := context.schemas }
        schema = .ok (type, refs)) : Steady Known type := by
    obtain ⟨typed, found, same⟩ := (bind_eq_ok _ _ _).mp shows
    cases same
    rw [stripIgnored_nil]
    exact steady.typeOf whole found
  cases shown with
  | function member own =>
      have whole := bodies _ member
      cases own with
      | body shown =>
          obtain ⟨schema, inside, shows⟩ := parts.bodyOf (fun entries given => whole _ (by
            simp [Operation.contents, Option.mem_def.mp given])) shown _ rfl
          exact written inside shows
      | response shown =>
          obtain ⟨schema, inside, shows⟩ := parts.responseOf (whole _ (by
            simp [Operation.contents])) shown _ rfl
          exact written inside shows
  | field member own =>
      obtain ⟨flat, pieces, refs, flattened, made, listed⟩ := own
      have given := propertiesHave_flattenIn parts _ _ _ steady.schemas (steady.schemas _ member)
        flattened
      obtain ⟨part, inside, plain⟩ :=
        part_of_interfacePieces parts.toPassesDown given made listed
      obtain ⟨typed, found, same⟩ := (bind_eq_ok _ _ _).mp plain
      cases same
      exact steady.typeOf inside found

/-- An entry that is no path, no key and none of the names in a steady document misses them all. -/
theorem SteadyContext.misses (steady : SteadyContext context Known)
    (bodies : ∀ operation ∈ operations, ∀ value ∈ operation.contents,
      SteadyValue context.mapping Known value)
    {entry : String} (paths : ∀ operation ∈ operations, Misses entry operation.path)
    (keys : ∀ own ∈ context.schemas, Misses entry own.1)
    (others : ∀ name, Known name → Misses entry name) {name : String}
    (compared : DocumentName context operations name) : Misses entry name := by
  cases compared with
  | path member => exact paths _ member
  | key member => exact keys _ member
  | wrapper shown plain member lookedUp =>
      exact others name ((steady.shownType bodies shown).wrappers plain member lookedUp)

/-- In a document whose names are steady, an entry that is none of them changes nothing. -/
theorem SteadyContext.generateApis_insert {options : GenerateOptions}
    (steady : SteadyContext ⟨options.mapping, options.schemas⟩ Known)
    (bodies : ∀ operation ∈ operations, ∀ value ∈ operation.contents,
      SteadyValue options.mapping Known value)
    {entry : String} (paths : ∀ operation ∈ operations, Misses entry operation.path)
    (keys : ∀ own ∈ options.schemas, Misses entry own.1)
    (others : ∀ name, Known name → Misses entry name) (before after : List Ignore) :
    List.map (Api.settled options.schemas) <$>
        generateApis { options with ignores := before ++ .name entry :: after } operations =
      List.map (Api.settled options.schemas) <$>
        generateApis { options with ignores := before ++ after } operations := by
  have unmatched (name : String)
      (compared : DocumentName ⟨options.mapping, options.schemas⟩ operations name) :
      Misses entry name := steady.misses bodies paths keys others compared
  have alike := @alike_insert _ _ before after _ unmatched fun _ type shown =>
    (steady.shownType bodies shown).lasting
  exact alike.generateApis fun operation member => isAllowed_insert (paths operation member)

end Steady

section Friends

def knownToFriends (name : String) : Prop := name ∈ ["Record", "User"]

theorem steady_toUser : Steady knownToFriends (SchemaName.parse [] (refTo "User")).typeName := by
  have plain : isPlainKey "User" = true := by decide
  rw [parse_of_plain plain (schemaKey_refTo plain)]
  have letters : ∀ c ∈ "User".toList, c.isAlphanum = true := List.all_eq_true.mp rfl
  exact .name (by decide) letters (by decide) fun _ => by simp [knownToFriends]

theorem steady_friends : SteadyContext ⟨[], friends⟩ knownToFriends where
  record := by simp [knownToFriends]
  chosen := by simp
  schemas := by
    intro entry member
    obtain rfl := List.mem_singleton.mp member
    constructor
    · intro ref within
      simp [user, toUser, Value.record, entryWithin_object, entryWithin_scalar] at within
      rw [within]
      exact steady_toUser
    · intro choices items within
      simp [user, toUser, Value.record, entryWithin_object, entryWithin_scalar] at within

theorem steady_showFriend : ∀ operation ∈ [showFriend], ∀ value ∈ operation.contents,
    SteadyValue [] knownToFriends value := by
  intro operation member value inside
  obtain rfl := List.mem_singleton.mp member
  obtain rfl : value = .object showFriend.responses := by
    simpa [Operation.contents, showFriend] using inside
  constructor
  · intro ref within
    simp [showFriend, toUser, Value.record, entryWithin_object, entryWithin_scalar] at within
    rw [within]
    exact steady_toUser
  · intro choices items within
    simp [showFriend, toUser, Value.record, entryWithin_object, entryWithin_scalar] at within

theorem misses_plain : ∀ name ∈ ["Record", "User"], Misses "Nope" name := by
  intro name member
  have apart : ∀ name ∈ ["Record", "User"], isPlainKey name = true ∧ "Nope" ≠ name := by decide
  obtain ⟨own, differs⟩ := apart name member
  refine ⟨differs, fun _ => ?_⟩
  rw [parse_of_plain own (schemaKey_of_plain own)]
  exact differs

theorem misses_friends {name : String}
    (known : DocumentName ⟨[], friends⟩ [showFriend] name) : Misses "Nope" name := by
  refine steady_friends.misses steady_showFriend ?_ ?_ misses_plain known
  · intro operation member
    obtain rfl := List.mem_singleton.mp member
    exact ⟨by decide, fun other => absurd other (by decide)⟩
  · intro own member
    obtain rfl := List.mem_singleton.mp member
    exact misses_plain "User" (by decide)

theorem unmatched_entry_changes_nothing_friends :
    List.map (Api.settled friends) <$>
        generateApis { schemas := friends, ignores := [.name "Nope"] } [showFriend] =
      List.map (Api.settled friends) <$>
        generateApis { schemas := friends, ignores := [] } [showFriend] := by
  refine unmatched_entry_changes_nothing { schemas := friends } [showFriend] [] [] "Nope"
    (fun _ known => misses_friends known) fun _ type shown => ?_
  exact (steady_friends.shownType steady_showFriend shown).lasting

end Friends

end TypedClient

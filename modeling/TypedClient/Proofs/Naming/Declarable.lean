import TypedClient.Proofs.Import.Reread
import TypedClient.Proofs.Naming.Characters
import TypedClient.Proofs.Naming.Coincidence

/-!
Which names may be declared, and when those of a function and of its query interface may. A name
behind a method is never reserved; one that stands alone is what the path or the identifier says.
-/

namespace TypedClient

open Naming

def reservedWords : List String :=
  ["await", "break", "case", "catch", "class", "const", "continue", "debugger", "default",
    "delete", "do", "else", "enum", "export", "extends", "false", "finally", "for", "function",
    "if", "implements", "import", "in", "instanceof", "interface", "let", "new", "null", "package",
    "private", "protected", "public", "return", "static", "super", "switch", "this", "throw",
    "true", "try", "typeof", "var", "void", "while", "with", "yield"]

/-- The first character of a name may start an identifier. -/
def Starts (name : String) : Prop := ∃ c ∈ name.toList.head?, isIdentifierStart c = true

/-- An identifier that is not reserved. -/
structure IsDeclarable (name : String) : Prop where
  started : Starts name
  spelled : ∀ c ∈ name.toList, isFieldChar c = true
  free : name ∉ reservedWords

def Url.fixedFromEnd (url : String) : List (List Char) :=
  ((Url.segments url.toList).filter fun text => (Url.parameter? text).isNone).reverse

def Url.paramsFromEnd (url : String) : List (List Char) :=
  (((Url.segments url.toList).reverse.map Url.parameter?).takeWhile Option.isSome).filterMap id

/-- The last fixed segment of a path and the names of the parameters behind it keep to field
characters in camel case. -/
structure Operation.Joinable (operation : Operation) : Prop where
  last : ∀ text ∈ (Url.fixedFromEnd operation.path).head?, Naming.Joinable text
  trailing : Url.fixedFromEnd operation.path ≠ [] →
    ∀ name ∈ Url.paramsFromEnd operation.path, Naming.Joinable name

/-- The fixed segment before the last keeps to field characters in camel case. -/
def Operation.FileJoinable (operation : Operation) : Prop :=
  ∀ text ∈ (Url.fixedFromEnd operation.path)[1]?, Naming.Joinable text

/-- What the name of a function leaves to the document: that a name which stands alone may be
declared, and that what the path gives to the name keeps to field characters. -/
structure Operation.Named (operation : Operation) : Prop where
  identified : ∀ tail, operation.tail? = some tail → tail ∉ reservedWords
  plain : ∀ name, operation.nameForm = .plain name → Starts name ∧ name ∉ reservedWords
  joinable : operation.tail? = none → operation.Joinable

section Path

theorem caseSafe_camelCase {text : List Char} (joinable : Naming.Joinable text) :
    WrittenIn CaseSafe (camelCase (String.ofList text)) := by
  unfold WrittenIn camelCase
  rw [String.toList_ofList, String.toList_ofList]
  exact caseSafe_of_mem_joinCamel joinable

theorem ofText_name_iff {text : List Char} {name : String} :
    Segment.ofText text = .name name ↔
      Url.parameter? text = none ∧ camelCase (String.ofList text) = name := by
  unfold Segment.ofText
  cases Url.parameter? text <;> simp

theorem ofText_param_iff {text : List Char} {name : String} :
    Segment.ofText text = .param name ↔
      ∃ inner, Url.parameter? text = some inner ∧ String.ofList inner = name := by
  unfold Segment.ofText
  cases Url.parameter? text <;> simp

theorem fixedFromEnd_names (url : String) : ((segmentsOf url).filterMap Segment.name?).reverse =
    (Url.fixedFromEnd url).map fun text => camelCase (String.ofList text) := by
  rw [Url.fixedFromEnd, List.map_reverse, segmentsOf, List.filterMap_map, ← List.filterMap_eq_map,
    List.filterMap_filter]
  congr 2
  funext text
  rw [Function.comp_apply, Segment.ofText]
  cases Url.parameter? text <;> rfl

theorem fromEnd_of_segments {url : String} {front : List Segment} {last : String}
    {trailing : List String}
    (path : segmentsOf url = front ++ .name last :: trailing.map .param) :
    (∃ text ∈ (Url.fixedFromEnd url).head?, camelCase (String.ofList text) = last) ∧
      ∀ param ∈ trailing, ∃ name ∈ Url.paramsFromEnd url, String.ofList name = param := by
  obtain ⟨before, rest, split, -, shape⟩ := List.map_eq_append_iff.mp path
  obtain ⟨text, behind, rfl, named, params⟩ := List.map_eq_cons_iff.mp shape
  obtain ⟨fixed, rfl⟩ := ofText_name_iff.mp named
  have each : ∀ text ∈ behind, ∃ inner, Url.parameter? text = some inner ∧
      String.ofList inner ∈ trailing := by
    intro text member
    have shown : Segment.ofText text ∈ trailing.map Segment.param := by
      rw [← params]
      exact List.mem_map_of_mem member
    obtain ⟨param, inside, same⟩ := List.mem_map.mp shown
    obtain ⟨inner, found, rfl⟩ := ofText_param_iff.mp same.symm
    exact ⟨inner, found, inside⟩
  constructor
  · have none : behind.filter (fun text => (Url.parameter? text).isNone) = [] := by
      rw [List.filter_eq_nil_iff]
      intro text member
      obtain ⟨inner, found, -⟩ := each text member
      simp [found]
    refine ⟨text, ?_, rfl⟩
    rw [Url.fixedFromEnd, split, List.filter_append, List.filter_cons_of_pos (by simp [fixed]),
      none,
      List.reverse_append]
    rfl
  · intro param member
    have shown : Segment.param param ∈ behind.map Segment.ofText := by
      rw [params]
      exact List.mem_map_of_mem member
    obtain ⟨text, inside, same⟩ := List.mem_map.mp shown
    obtain ⟨inner, found, rfl⟩ := ofText_param_iff.mp same
    refine ⟨inner, ?_, rfl⟩
    have all : ∀ text ∈ behind.reverse.map Url.parameter?, text.isSome = true := by
      intro shown member
      obtain ⟨text, inside, rfl⟩ := List.mem_map.mp member
      obtain ⟨inner, found, -⟩ := each text (List.mem_reverse.mp inside)
      simp [found]
    rw [Url.paramsFromEnd, split, List.reverse_append, List.reverse_cons, List.append_assoc,
      List.map_append, List.takeWhile_append_of_pos all, List.filterMap_append]
    refine List.mem_append_left _ (List.mem_filterMap.mpr ⟨some inner, ?_, rfl⟩)
    exact List.mem_map.mpr ⟨text, List.mem_reverse.mpr inside, found⟩

theorem Operation.Joinable.written {operation : Operation} (joinable : operation.Joinable)
    {front : List Segment} {last : String} {trailing : List String}
    (path : segmentsOf operation.path = front ++ .name last :: trailing.map .param) :
    WrittenIn CaseSafe last ∧ ∀ param ∈ trailing, WrittenIn CaseSafe (camelCase param) := by
  obtain ⟨⟨text, first, rfl⟩, params⟩ := fromEnd_of_segments path
  refine ⟨caseSafe_camelCase (joinable.last text first), fun param member => ?_⟩
  have filled : Url.fixedFromEnd operation.path ≠ [] := by
    intro none
    simp [none] at first
  obtain ⟨name, inside, rfl⟩ := params param member
  exact caseSafe_camelCase (joinable.trailing filled name inside)

theorem Operation.FileJoinable.written {operation : Operation}
    (joinable : operation.FileJoinable) : WrittenIn CaseSafe operation.urlNames.fileName := by
  have index : WrittenIn CaseSafe "index" := caseClosed_caseSafe.ascii (by decide)
  have names := fixedFromEnd_names operation.path
  unfold Operation.FileJoinable at joinable
  unfold Operation.urlNames UrlNames.parse UrlNames.ofSegments
  dsimp only
  rw [names]
  match fixed : Url.fixedFromEnd operation.path, joinable with
  | [], _ => exact index
  | [last], _ => exact index
  | last :: file :: rest, joinable => exact caseSafe_camelCase (joinable file rfl)

end Path

section Names

theorem rest?_ne_empty {url : UrlNames} {rest : String} (given : url.funcName ≠ "")
    (behind : url.rest? = some rest) : rest ≠ "" := by
  unfold UrlNames.rest? at behind
  split at behind
  · rename_i suffix found
    obtain rfl := Option.some.inj behind
    obtain ⟨-, part, -, -, -, rfl, -⟩ := paramSuffixOf?_spec found
    simp [paramSuffix]
  · split at behind
    · obtain rfl := Option.some.inj behind
      obtain ⟨c, others, shape⟩ := List.exists_cons_of_ne_nil
        (mt String.toList_eq_nil_iff.mp given)
      intro empty
      have none := String.toList_eq_nil_iff.mpr empty
      simp [upperFirst, shape, Naming.capitalize, Text.upperForm_ne_nil] at none
    · cases behind

theorem reserved_of_method : ∀ word ∈ reservedWords, ∀ method ∈ httpMethods,
    method.toList <+: word.toList → word = method := by
  decide

theorem behind_free {method rest : String} (known : method ∈ httpMethods) (given : rest ≠ "") :
    method ++ rest ∉ reservedWords := by
  intro reserved
  have started : method.toList <+: (method ++ rest).toList := by
    rw [String.toList_append]
    exact List.prefix_append _ _
  have same := reserved_of_method _ reserved method known started
  have shape := congrArg String.toList same
  rw [String.toList_append, List.append_right_eq_self] at shape
  exact given (String.toList_eq_nil_iff.mp shape)

theorem ascii_of_isIdentifierStart {c : Char} (start : isIdentifierStart c = true) :
    c.toNat < 128 := by
  unfold isIdentifierStart Char.isAlpha at start
  simp only [Bool.or_eq_true, beq_iff_eq, Text.isUpper_iff, Text.isLower_iff] at start
  obtain (letter | rfl) | rfl := start
  · omega
  · decide
  · decide

theorem isIdentifierStart_of_isUpper {c : Char} (capital : c.isUpper = true) :
    isIdentifierStart c = true := by
  unfold isIdentifierStart Char.isAlpha
  simp [capital]

theorem starts_of_isIdentifier {name : String} (identifier : isIdentifier name = true) :
    Starts name := by
  unfold isIdentifier at identifier
  split at identifier
  · cases identifier
  · rename_i c rest shape
    exact ⟨c, by simp [shape], (Bool.and_eq_true _ _ ▸ identifier).1⟩

theorem starts_append {name : String} (started : Starts name) (other : String) :
    Starts (name ++ other) := by
  obtain ⟨c, first, start⟩ := started
  refine ⟨c, ?_, start⟩
  rw [String.toList_append, List.head?_append]
  simp [Option.mem_def.mp first]

theorem starts_upperFirst {name : String} (started : Starts name) : Starts (upperFirst name) := by
  obtain ⟨c, first, start⟩ := started
  obtain ⟨rest, shape⟩ := List.head?_eq_some_iff.mp first
  have ascii := ascii_of_isIdentifierStart start
  refine ⟨c.toUpper, ?_, ?_⟩
  · simp [upperFirst, shape, capitalize, Text.upperForm, ascii]
  · rcases Text.toUpper_eq c with capital | same
    · exact isIdentifierStart_of_isUpper capital
    · rw [same]
      exact start

theorem starts_method : ∀ method ∈ httpMethods, Starts method := by
  have checked : httpMethods.all (fun method => method.toList.head?.any isIdentifierStart) =
      true := by decide
  intro method member
  exact (Option.any_eq_true _ _).mp (List.all_eq_true.mp checked method member)

theorem caseSafe_nameForm {operation : Operation} (known : operation.method ∈ httpMethods)
    (named : operation.Named) :
    IsDeclarable operation.nameForm.text ∧ WrittenIn CaseSafe operation.nameForm.text := by
  have safe := writtenIn_nameForm caseClosed_caseSafe known
    fun untold _ _ _ path => (named.joinable untold).written path
  suffices found : Starts operation.nameForm.text ∧ operation.nameForm.text ∉ reservedWords from
    ⟨⟨found.1, fun c member => (safe c member).isFieldChar, found.2⟩, safe⟩
  rcases nameForm_cases operation with ⟨tail, told, form⟩ | ⟨untold, form⟩ |
    ⟨rest, untold, behind, form⟩
  · rw [form]
    exact ⟨starts_of_isIdentifier (isIdentifier_tail told), named.identified tail told⟩
  · rw [form]
    exact named.plain _ form
  · rw [form]
    exact ⟨starts_append (starts_method operation.method known) rest,
      behind_free known (rest?_ne_empty (funcName_ne_empty operation.path) behind)⟩

theorem isDeclarable_query {file name : String} (started : Starts file)
    (spelled : WrittenIn CaseSafe file) (safe : WrittenIn CaseSafe name) :
    IsDeclarable (upperFirst file ++ upperFirst name ++ "Query") ∧
      upperFirst file ++ upperFirst name ++ "Query" ≠ "type" := by
  have apart : ∀ word ∈ "type" :: reservedWords, ¬ "Query".toList <:+ word.toList := by decide
  have ended : "Query".toList <:+ (upperFirst file ++ upperFirst name ++ "Query").toList := by
    rw [String.toList_append]
    exact List.suffix_append _ _
  have whole := caseClosed_caseSafe.query spelled safe
  constructor
  · exact ⟨starts_append (starts_append (starts_upperFirst started) _) _,
      fun c member => (whole c member).isFieldChar,
      fun reserved => apart _ (.tail _ reserved) ended⟩
  · intro same
    rw [same] at ended
    exact apart _ (.head _) ended

end Names

theorem imports_text_default {path default : String} (onlyType : Bool)
    (target : ImportText.IsPath path.toList) (identifier : ImportText.IsIdentifier default.toList)
    (other : default ≠ "type") :
    (splitSource ({ path, defaultName := some default, onlyType : Import }).text).imports =
      [.item { path, defaultName := some default, onlyType }] := by
  have readable : ({ path, defaultName := some default, onlyType : Import }).Readable := by
    refine ⟨target, ?_, ?_, ?_, .inr (.inl ?_)⟩
    · rintro name ⟨⟩
      exact ⟨identifier, other⟩
    · rintro name ⟨⟩
    · exact fun name member => absurd member List.not_mem_nil
    · simp
  have entries : ∀ entry ∈ [ImportEntry.item { path, defaultName := some default, onlyType }],
      entry.Readable :=
    List.forall_mem_singleton.mpr readable
  have read := congrArg SplitSource.imports (splitSource_importsText entries)
  simpa [importsText, ImportEntry.text, ImportEntry.reads, Import.reads] using read

/-- The names that are made for an operation may be declared, and the import of its query interface
is read back, where the document leaves nothing that a name may not have. -/
theorem names_declarable {options : GenerateOptions} {document : Entries} {keyword : Option String}
    {operations : List Operation} {apis : List Api} {notices : List Notice}
    (unnamed : options.funcName = none)
    (searched : searchOperations document keyword = .ok operations)
    (made : (generateApis options operations).outcome = (.ok apis, notices))
    {operation : Operation} {api : Api}
    (member : (operation, api) ∈ (options.chosen operations).zip apis)
    (named : operation.Named) :
    IsDeclarable api.funcName ∧
      (operation.FileJoinable → Starts operation.urlNames.fileName →
        ∀ model, api.queryModel = some model → IsDeclarable model.typeName ∧
          ∀ path, ImportText.IsPath path.toList →
            let statement : Import := { path, defaultName := some model.typeName, onlyType := true }
            (splitSource statement.text).imports = [.item statement]) := by
  obtain ⟨inside, -, name, query⟩ := names_of_mem unnamed made member
  have known := method_of_searchOperations searched operation inside
  obtain ⟨declarable, safe⟩ := caseSafe_nameForm known named
  rw [name]
  refine ⟨declarable, fun joinable started model asked => ?_⟩
  obtain ⟨type, spelled, -⟩ := query model asked
  have own := isDeclarable_query started joinable.written safe
  rw [← spelled, ← type] at own
  obtain ⟨own, other⟩ := own
  refine ⟨own, fun path target => imports_text_default true target ⟨?_, own.spelled⟩ other⟩
  intro empty
  obtain ⟨c, first, -⟩ := own.started
  simp [empty] at first

section Users

def pagedUsers : Operation := pagedOperation "/users"

theorem urlNames_pagedUsers : pagedUsers.urlNames = ⟨"users", "index", "", []⟩ :=
  (by decide : UrlNames.parse "/users" = ⟨"users", "index", "", []⟩)

theorem nameForm_pagedUsers : pagedUsers.nameForm = .plain "users" := by
  rw [nameForm_plain rfl (by rw [urlNames_pagedUsers]; decide), urlNames_pagedUsers]

theorem queryName_pagedUsers : pagedUsers.queryName none = "IndexUsersQuery" := by
  rw [Operation.queryName, funcName_eq, nameForm_pagedUsers, urlNames_pagedUsers]
  decide

theorem yields_pagedUsers : ∃ api model, Yields (generateApi {} pagedUsers) [] api [] ∧
    api.queryModel = some model ∧ model.fileName = "IndexUsersQuery" := by
  obtain ⟨api, model, ran, asked⟩ := @yields_pagedOperation "/users" (by decide)
  refine ⟨api, model, ran, asked, ?_⟩
  obtain ⟨shown, source, found, -, rfl⟩ := (yields_generateApi _ _ _ _ _).mp ran
  rw [Operation.api_queryModel] at asked
  rw [(query_of_ofOperation found asked).1, ← queryName_pagedUsers]
  rfl

def versionedUsers : Operation := pagedOperation "/api/v1.0/users/list"

theorem urlNames_versionedUsers :
    versionedUsers.urlNames = ⟨"list", "users", "api/v1.0", []⟩ :=
  (by decide : UrlNames.parse "/api/v1.0/users/list" = ⟨"list", "users", "api/v1.0", []⟩)

theorem fixedFromEnd_versionedUsers : Url.fixedFromEnd versionedUsers.path =
    ["list".toList, "users".toList, "v1.0".toList, "api".toList] := by
  decide

theorem named_versionedUsers : versionedUsers.Named := by
  refine ⟨fun tail told => ?_, fun name same => ?_, fun _ => ⟨fun text first => ?_, fun _ => ?_⟩⟩
  · cases told
  · rw [nameForm_plain rfl (by rw [urlNames_versionedUsers]; decide),
      urlNames_versionedUsers] at same
    cases same
    exact ⟨⟨'l', by decide, by decide⟩, by decide⟩
  · rw [fixedFromEnd_versionedUsers] at first
    cases first
    exact joinable_of_ascii (by decide)
  · have none : Url.paramsFromEnd versionedUsers.path = [] := by decide
    rw [none]
    exact List.forall_mem_nil _

theorem names_declarable_versionedUsers : ∃ api model,
    (generateApis {} [versionedUsers]).outcome = (.ok [api], []) ∧ api.queryModel = some model ∧
    IsDeclarable api.funcName ∧ IsDeclarable model.typeName := by
  have searched : searchOperations (pagedPaths ["/api/v1.0/users/list"]) none =
      .ok [versionedUsers] := rfl
  have file : versionedUsers.FileJoinable := by
    intro text second
    rw [fixedFromEnd_versionedUsers] at second
    cases second
    exact joinable_of_ascii (by decide)
  have started : Starts versionedUsers.urlNames.fileName := by
    rw [urlNames_versionedUsers]
    exact ⟨'u', by decide, by decide⟩
  obtain ⟨api, model, ran, asked⟩ := @yields_pagedOperation "/api/v1.0/users/list" (by decide)
  have made := @generateApis_of_forall₂ {} [versionedUsers] _ (.cons ran .nil)
  obtain ⟨function, query⟩ := names_declarable rfl searched made (.head _) named_versionedUsers
  exact ⟨api, model, made, asked, function, (query file started model asked).1⟩

end Users

end TypedClient

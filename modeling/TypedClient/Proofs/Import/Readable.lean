import TypedClient.Proofs.Distinct
import TypedClient.Proofs.Import.RoundTrip
import TypedClient.Proofs.Import.Shown

namespace TypedClient

namespace Import

open ImportText

/-- A statement of a shape that is read, whose names and path hold nothing that ends them. -/
structure Readable (statement : Import) : Prop where
  path : IsPath statement.path.toList
  default : ∀ name ∈ statement.defaultName, IsIdentifier name.toList ∧ name ≠ "type"
  space : ∀ name ∈ statement.asName, IsIdentifier name.toList ∧
    statement.defaultName = none ∧ statement.names = []
  names : ∀ name ∈ statement.names, IsListed name.toList
  binds : statement.asName ≠ none ∨ statement.defaultName ≠ none ∨ statement.names ≠ []

instance (statement : Import) : Decidable statement.Readable :=
  decidable_of_iff (IsPath statement.path.toList ∧
      (∀ name ∈ statement.defaultName, IsIdentifier name.toList ∧ name ≠ "type") ∧
      (∀ name ∈ statement.asName, IsIdentifier name.toList ∧
        statement.defaultName = none ∧ statement.names = []) ∧
      (∀ name ∈ statement.names, IsListed name.toList) ∧
      (statement.asName ≠ none ∨ statement.defaultName ≠ none ∨ statement.names ≠ []))
    ⟨fun ⟨path, default, space, names, binds⟩ => ⟨path, default, space, names, binds⟩,
      fun ⟨path, default, space, names, binds⟩ => ⟨path, default, space, names, binds⟩⟩

theorem line_eq (statement : Import) (clause : List Char) :
    statement.line clause =
      keyword statement.onlyType ++ (clause ++ ' ' :: sourceClause statement.path) := by
  unfold line sourceClause
  simp

def reads (statement : Import) : List Import :=
  let names := statement.names.eraseDups
  match names, statement.defaultName with
  | _ :: _, some default =>
    if statement.onlyType then
      [{ path := statement.path, defaultName := some default, onlyType := true },
        { path := statement.path, names, onlyType := true }]
    else [{ statement with names }]
  | _, _ => [{ statement with names }]

theorem reads_cases (statement : Import) :
    statement.reads = [{ statement with names := statement.names.eraseDups }] ∨
      ∃ default, statement.defaultName = some default ∧ statement.names ≠ [] ∧
        statement.onlyType = true ∧ statement.reads =
          [{ path := statement.path, defaultName := some default, onlyType := true },
            { path := statement.path, names := statement.names.eraseDups, onlyType := true }] := by
  unfold reads
  dsimp only
  split
  · rename_i first rest default shape given
    split
    · rename_i only
      have names : statement.names ≠ [] := by
        rintro empty
        simp [empty] at shape
      exact .inr ⟨default, given, names, only, rfl⟩
    · exact .inl rfl
  · exact .inl rfl

theorem printed_of_clauses {statement : Import} {clauses : List (List Char)}
    (shape : statement.clauses = clauses) (given : clauses ≠ []) :
    statement.printed = clauses.map statement.line := by
  unfold printed
  rw [shape, if_neg (by simpa using given)]

section Shapes

variable {path : String} {default space : String} {names : List String} {onlyType : Bool}

theorem parse_line {statement read : Import} {clause : List Char}
    (target : IsPath statement.path.toList) (spaced : Text.Spaced clause)
    (given : clause ≠ [])
    (found : statement? (keyword statement.onlyType ++
      (clause ++ ' ' :: sourceClause statement.path)) = some read) :
    ImportEntry.parse (statement.line clause) = .item read := by
  rw [line_eq]
  exact ImportEntry.parse_of_spaced (spaced_line statement.onlyType spaced given target.solid) found

theorem parse_printed_single {statement read : Import} {clause : List Char}
    (shape : statement.clauses = [clause]) (target : IsPath statement.path.toList)
    (spaced : Text.Spaced clause) (given : clause ≠ [])
    (found : statement? (keyword statement.onlyType ++
      (clause ++ ' ' :: sourceClause statement.path)) = some read) :
    statement.printed.map ImportEntry.parse = [.item read] := by
  rw [printed_of_clauses shape (List.cons_ne_nil _ _), List.map_singleton, List.map_singleton,
    parse_line target spaced given found]

theorem filter_of_identifier {name : String} (identifier : IsIdentifier name.toList) :
    (some name).filter (· != "") = some name := by
  have solid : name ≠ "" := by
    rintro rfl
    exact identifier.1 rfl
  simp [solid]

theorem parse_printed_space (target : IsPath path.toList) (identifier : IsIdentifier space.toList) :
    ({ path, asName := some space, onlyType : Import }).printed.map ImportEntry.parse =
      [.item { path, asName := some space, onlyType }] := by
  have clauses : ({ path, asName := some space, onlyType : Import }).clauses =
      ["* as ".toList ++ space.toList] := by
    unfold clauses
    rw [filter_of_identifier identifier]
    rfl
  have star : Text.IsWord "*".toList := Text.isWord_of_all (by decide) (by decide)
  have binder : Text.IsWord "as".toList := Text.isWord_of_all (by decide) (by decide)
  have spaced := (Text.spaced_of_isWord star).append_space star.1
    ((Text.spaced_of_isWord binder).append_space binder.1
      (Text.spaced_of_isWord identifier.isWord) identifier.1) (by simp)
  have found := statement?_space onlyType identifier target.quotable
  rw [String.ofList_toList] at found
  have found' : statement? (keyword onlyType ++
      ("* as ".toList ++ space.toList ++ ' ' :: sourceClause path)) =
        some { path, asName := some space, onlyType } := by
    rw [List.append_assoc]
    exact found
  exact parse_printed_single clauses target spaced (by simp) found'

theorem parse_printed_default (target : IsPath path.toList)
    (identifier : IsIdentifier default.toList)
    (other : default ≠ "type") :
    ({ path, defaultName := some default, onlyType : Import }).printed.map ImportEntry.parse =
      [.item { path, defaultName := some default, onlyType }] := by
  have clauses : ({ path, defaultName := some default, onlyType : Import }).clauses =
      [default.toList] := by
    unfold clauses
    rw [filter_of_identifier identifier]
    rfl
  have spaced := Text.spaced_of_isWord identifier.isWord
  have found := statement?_default onlyType identifier (mt String.toList_inj.mp other)
    target.quotable
  rw [String.ofList_toList] at found
  exact parse_printed_single clauses target spaced identifier.1 found

theorem listed_eraseDups (listed : ∀ name ∈ names, IsListed name.toList) :
    ∀ name ∈ names.eraseDups, IsListed name.toList :=
  fun name member => listed name (List.mem_eraseDups.mp member)

theorem parse_printed_names (target : IsPath path.toList) (given : names ≠ [])
    (listed : ∀ name ∈ names, IsListed name.toList) :
    ({ path, names, onlyType : Import }).printed.map ImportEntry.parse =
      [.item { path, names := names.eraseDups, onlyType }] := by
  rcases eraseDups_shape given with ⟨first, rest, shape⟩
  have clauses : ({ path, names, onlyType : Import }).clauses = [named names.eraseDups] := by
    unfold clauses
    rw [shape]
    rfl
  have kept : names.eraseDups ≠ [] := by simp [shape]
  have spaced := spaced_named kept (listed_eraseDups listed)
  have found := statement?_named onlyType kept (listed_eraseDups listed) target.quotable
  exact parse_printed_single clauses target spaced.1 spaced.2 found

theorem parse_printed_both (target : IsPath path.toList) (identifier : IsIdentifier default.toList)
    (other : default ≠ "type") (given : names ≠ [])
    (listed : ∀ name ∈ names, IsListed name.toList) :
    ({ path, names, defaultName := some default : Import }).printed.map ImportEntry.parse =
      [.item { path, names := names.eraseDups, defaultName := some default }] := by
  rcases eraseDups_shape given with ⟨first, rest, shape⟩
  have clauses : ({ path, names, defaultName := some default : Import }).clauses =
      [default.toList ++ ", ".toList ++ named names.eraseDups] := by
    unfold clauses
    rw [shape, filter_of_identifier identifier]
    rfl
  have kept : names.eraseDups ≠ [] := by simp [shape]
  have comma : Text.IsWord [','] := Text.isWord_of_all (by decide) (by decide)
  have braces := spaced_named kept (listed_eraseDups listed)
  have spaced := ((Text.spaced_of_isWord identifier.isWord).append
    (Text.spaced_of_isWord comma)).append_space (by simp) braces.1 braces.2
  have found := statement?_both identifier (mt String.toList_inj.mp other) kept
    (listed_eraseDups listed) target.quotable
  rw [String.ofList_toList] at found
  have clause : default.toList ++ ", ".toList ++ named names.eraseDups =
      (default.toList ++ [',']) ++ ' ' :: named names.eraseDups := by
    simp
  have body : ((default.toList ++ [',']) ++ ' ' :: named names.eraseDups) ++
      ' ' :: sourceClause path =
        default.toList ++ ',' :: ' ' :: (named names.eraseDups ++ ' ' :: sourceClause path) := by
    simp
  rw [clause] at clauses
  apply parse_printed_single clauses target spaced (by simp)
  dsimp only
  rw [body]
  exact found

/-- A statement of types becomes two lines if it binds a default name and others. -/
theorem parse_printed_types (target : IsPath path.toList) (identifier : IsIdentifier default.toList)
    (other : default ≠ "type") (given : names ≠ [])
    (listed : ∀ name ∈ names, IsListed name.toList) :
    ({ path, names, defaultName := some default, onlyType := true : Import }).printed.map
        ImportEntry.parse =
      [.item { path, defaultName := some default, onlyType := true },
        .item { path, names := names.eraseDups, onlyType := true }] := by
  rcases eraseDups_shape given with ⟨first, rest, shape⟩
  have clauses : ({ path, names, defaultName := some default, onlyType := true : Import }).clauses =
      [default.toList, named names.eraseDups] := by
    unfold clauses
    rw [shape, filter_of_identifier identifier]
    rfl
  have kept : names.eraseDups ≠ [] := by simp [shape]
  have braces := spaced_named kept (listed_eraseDups listed)
  have single := Text.spaced_of_isWord identifier.isWord
  have found := statement?_default true identifier (mt String.toList_inj.mp other) target.quotable
  have found' := statement?_named true kept (listed_eraseDups listed) target.quotable
  rw [String.ofList_toList] at found
  rw [printed_of_clauses clauses (List.cons_ne_nil _ _), List.map_cons, List.map_cons,
    List.map_singleton, List.map_singleton, List.cons_eq_cons, List.singleton_inj]
  constructor
  · exact parse_line target single identifier.1 found
  · exact parse_line target braces.1 braces.2 found'

end Shapes

namespace Readable

variable {statement : Import}

/-- What is printed is read again; a name that is listed twice is printed once. -/
theorem parse_printed (readable : statement.Readable) :
    statement.printed.map ImportEntry.parse = statement.reads.map .item := by
  have target := readable.path
  cases statement with
  | mk path default space names onlyType =>
      cases space with
      | some space =>
          have own := readable.space space rfl
          dsimp only at own
          rw [own.2.1, own.2.2]
          exact parse_printed_space target own.1
      | none =>
          by_cases given : names = []
          · cases default with
            | none =>
                have binds := readable.binds
                simp [given] at binds
            | some default =>
                have own := readable.default default rfl
                rw [given]
                exact parse_printed_default target own.1 own.2
          · rcases eraseDups_shape given with ⟨first, rest, shape⟩
            cases default with
            | none =>
                have reads : ({ path, names, onlyType : Import }).reads =
                    [{ path, names := names.eraseDups, onlyType }] := by
                  unfold reads
                  dsimp only
                  rw [shape]
                rw [reads]
                exact parse_printed_names target given readable.names
            | some default =>
                have own := readable.default default rfl
                cases onlyType with
                | false =>
                    have reads : ({ path, names, defaultName := some default : Import }).reads =
                        [{ path, names := names.eraseDups, defaultName := some default }] := by
                      unfold reads
                      dsimp only
                      rw [shape]
                      rfl
                    rw [reads]
                    exact parse_printed_both target own.1 own.2 given readable.names
                | true =>
                    have reads : (Import.mk path (some default) none names true).reads =
                        [{ path, defaultName := some default, onlyType := true },
                          { path, names := names.eraseDups, onlyType := true }] := by
                      unfold reads
                      dsimp only
                      rw [shape]
                      rfl
                    rw [reads]
                    exact parse_printed_types target own.1 own.2 given readable.names

theorem filter_of_identifiers {name : Option String}
    (identifier : ∀ given ∈ name, IsIdentifier given.toList) : name.filter (· != "") = name := by
  cases name with
  | none => rfl
  | some given => exact filter_of_identifier (identifier given rfl)

theorem shown_default (readable : statement.Readable) :
    statement.shown.defaultName = statement.defaultName :=
  filter_of_identifiers fun name given => (readable.default name given).1

theorem shown_space (readable : statement.Readable) :
    statement.shown.asName = statement.asName :=
  filter_of_identifiers fun name given => (readable.space name given).1

theorem isGiven_default (readable : statement.Readable) :
    isGiven statement.defaultName = statement.defaultName.isSome :=
  (isGiven_eq _).trans (congrArg Option.isSome readable.shown_default)

theorem printable (readable : statement.Readable) : statement.Printable where
  unbroken :=
    { path := Text.unbroken_of_solid readable.path.solid
      default := fun name given => Text.unbroken_of_solid (readable.default name given).1.isWord.2
      space := fun name given => Text.unbroken_of_solid (readable.space name given).1.isWord.2
      names := fun name member => (readable.names name member).spaced.unbroken }
  start := by
    rcases List.exists_cons_of_ne_nil readable.path.quotable.1 with ⟨first, rest, shape⟩
    exact ⟨first, rest, shape, readable.path.quotable.2 first (by simp [shape])⟩
  binds := fun _ => isComplete_of_quotable readable.path.quotable

end Readable

/-- What is the same for statements that may stand as one. -/
def key (statement : Import) : String × Bool × Option String :=
  (statement.path, statement.onlyType, statement.asName)

theorem key_of_merges {a b : Import} (readable : a.Readable) (readable' : b.Readable)
    (merges : a.merges b = true) : a.key = b.key := by
  have alike := merges_iff.mp merges
  have space : a.asName = b.asName := by
    rw [← readable.shown_space, ← readable'.shown_space, alike.space]
  simp [key, alike.path, alike.onlyType, space]

/-- Two default names keep statements of one key apart, and nothing else does. -/
theorem merges_of_key {a b : Import} (readable : a.Readable) (readable' : b.Readable)
    (same : a.key = b.key)
    (single : ∀ name ∈ a.defaultName, ∀ other ∈ b.defaultName, name = other) :
    a.merges b = true := by
  simp only [key, Prod.mk.injEq] at same
  rcases same with ⟨path, onlyType, space⟩
  refine merges_iff.mpr ⟨path, onlyType, ?_, fun _ => ?_⟩
  · rw [readable.shown_space, readable'.shown_space, space]
  · rw [readable.shown_default, readable'.shown_default]
    exact single

theorem defaultName_eq_of_merges {a b : Import} (readable : a.Readable) (readable' : b.Readable)
    (merges : a.merges b = true) {name other : String} (given : name ∈ a.defaultName)
    (given' : other ∈ b.defaultName) : name = other := by
  have alike := merges_iff.mp merges
  have plain : a.shown.asName = none := by
    rw [readable.shown_space, Option.eq_none_iff_forall_not_mem]
    intro space spaced
    rw [(readable.space space spaced).2.1] at given
    cases given
  rw [← readable.shown_default] at given
  rw [← readable'.shown_default] at given'
  exact alike.default plain name given other given'

theorem mem_defaultName_merge {a b : Import} (readable : a.Readable) (readable' : b.Readable)
    (alike : a.merges b = true) (name : String) :
    name ∈ (a.merge b).defaultName ↔ name ∈ a.defaultName ∨ name ∈ b.defaultName := by
  have single := fun (other : String) (given : other ∈ a.defaultName)
      (given' : name ∈ b.defaultName) =>
    defaultName_eq_of_merges readable readable' alike given given'
  unfold merge
  rw [readable.isGiven_default]
  cases first : a.defaultName with
  | none => simp
  | some other =>
      constructor
      · exact .inl
      · rintro (own | added)
        · exact own
        · have same := single other first added
          exact congrArg some same

theorem Readable.merge {a b : Import} (readable : a.Readable) (readable' : b.Readable)
    (alike : a.merges b = true) : (a.merge b).Readable where
  path := readable.path
  default := by
    intro name given
    rcases (mem_defaultName_merge readable readable' alike name).mp given with own | other
    · exact readable.default name own
    · exact readable'.default name other
  space := by
    intro name given
    have same := key_of_merges readable readable' alike
    simp only [key, Prod.mk.injEq] at same
    have given' : name ∈ b.asName := same.2.2 ▸ given
    rcases readable.space name given with ⟨identifier, default, names⟩
    rcases readable'.space name given' with ⟨-, default', names'⟩
    refine ⟨identifier, ?_, ?_⟩
    · unfold Import.merge
      rw [default, default']
      rfl
    · unfold Import.merge
      rw [names, names']
      rfl
  names := by
    intro name member
    rcases List.mem_append.mp member with own | added
    · exact readable.names name own
    · exact readable'.names name added
  binds := by
    rcases readable.binds with space | default | names
    · exact .inl space
    · refine .inr (.inl ?_)
      unfold Import.merge
      rw [readable.isGiven_default, Option.isSome_iff_ne_none.mpr default]
      exact default
    · exact .inr (.inr (List.append_ne_nil_of_left_ne_nil names _))

theorem Readable.of_reads {statement read : Import} (readable : statement.Readable)
    (member : read ∈ statement.reads) : read.Readable := by
  have names := listed_eraseDups readable.names
  have kept : statement.names ≠ [] → statement.names.eraseDups ≠ [] := by
    intro given
    rcases eraseDups_shape given with ⟨first, rest, shape⟩
    simp [shape]
  have whole : ({ statement with names := statement.names.eraseDups : Import }).Readable :=
    { path := readable.path
      default := readable.default
      space := by
        intro name given
        rcases readable.space name given with ⟨identifier, default, empty⟩
        exact ⟨identifier, default, by simp [empty]⟩
      names := names
      binds := readable.binds.imp_right (Or.imp_right kept) }
  rcases reads_cases statement with single | ⟨default, given, own, -, double⟩
  · rw [single, List.mem_singleton] at member
    exact member ▸ whole
  · rw [double, List.mem_pair] at member
    rcases member with rfl | rfl
    · exact ⟨readable.path, fun name held => readable.default name (given ▸ held),
        by simp, by simp, by simp⟩
    · exact ⟨readable.path, by simp, by simp, names, .inr (.inr (kept own))⟩

end Import

namespace ImportEntry

/-- An entry whose lines are read as its parts. -/
def Readable : ImportEntry → Prop
  | item statement => statement.Readable
  | verbatim text => ImportText.IsStatement text.toList ∧ parse text.toList = .verbatim text

def reads : ImportEntry → List ImportEntry
  | item statement => statement.reads.map item
  | verbatim text => [verbatim text]

namespace Readable

variable {entry : ImportEntry}

theorem printable (readable : entry.Readable) : entry.Printable := by
  cases entry with
  | item statement => exact Import.Readable.printable readable
  | verbatim text => exact readable.1

theorem parse_lines (readable : entry.Readable) : entry.lines.map parse = entry.reads := by
  cases entry with
  | item statement => exact Import.Readable.parse_printed readable
  | verbatim text => exact List.singleton_inj.mpr readable.2

theorem parse_flatMap_lines {entries : List ImportEntry}
    (readable : ∀ entry ∈ entries, entry.Readable) :
    (entries.flatMap ImportEntry.lines).map parse = entries.flatMap reads := by
  rw [List.map_flatMap]
  exact List.flatMap_congr fun entry member => (readable entry member).parse_lines

theorem of_reads {read : ImportEntry} (readable : entry.Readable) (member : read ∈ entry.reads) :
    read.Readable := by
  cases entry with
  | item statement =>
      rcases List.mem_map.mp member with ⟨part, own, rfl⟩
      exact Import.Readable.of_reads readable own
  | verbatim text => exact List.mem_singleton.mp member ▸ readable

end Readable

/-- The entry of a line that is a statement reads as itself, if what it binds is readable. -/
theorem readable_parse {line : List Char} (statement : ImportText.IsStatement line)
    (readable : ∀ found, parse line = .item found → found.Readable) : (parse line).Readable := by
  cases read : parse line with
  | item found => exact readable found read
  | verbatim text =>
      have same : text = String.ofList line := by
        unfold parse at read
        split at read
        · cases read
        · cases read
          rfl
      subst same
      have spelled : (String.ofList line).toList = line := String.toList_ofList
      exact ⟨spelled.symm ▸ statement, spelled.symm ▸ read⟩

end ImportEntry

end TypedClient

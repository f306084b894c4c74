import TypedClient.Proofs.Import.Bindings
import TypedClient.Proofs.Output.ApiFile

namespace TypedClient

structure ReadableStatements (code : String) : Prop where
  whole : WholeStatements code
  readable : ∀ statement ∈ itemsOf (splitSource code).imports, statement.Readable

theorem ReadableStatements.entries {code : String} (statements : ReadableStatements code) :
    ∀ entry ∈ (splitSource code).imports, entry.Readable := by
  have readable := statements.readable
  rw [splitSource_of_whole statements.whole] at *
  intro entry member
  rcases List.mem_map.mp member with ⟨line, inside, rfl⟩
  apply ImportEntry.readable_parse (statements.whole.isStatement inside)
  intro found read
  exact readable found (mem_itemsOf.mpr (read ▸ member))

namespace FileCall

/-- A call that brings statements which read as themselves, beside a function that holds none. -/
structure IsReadable (directory : Place) (path : String) (call : FileCall) : Prop where
  plain : statementLines call.api.sourceCode = []
  configured : ∀ setting ∈ call.options.imports, ∀ text, setting.toText = .ok text →
    ReadableStatements text
  models : ∀ name ∈ call.api.typeNames, ImportText.IsListed name.toList
  query : ∀ model ∈ call.api.queryModel,
    ImportText.IsIdentifier model.typeName.toList ∧ model.typeName ≠ "type"
  paths : ∀ own, call.built directory path = .ok own → ∀ statement ∈ own,
    ImportText.IsPath statement.path.toList

section Added

variable {directory : Place} {path content : String} {call : FileCall}
  {given imports : List ImportEntry}

theorem IsReadable.built (fits : call.IsReadable directory path) {own : List Import}
    (built : call.built directory path = .ok own) {statement : Import} (member : statement ∈ own) :
    statement.Readable := by
  have target := fits.paths own built statement member
  rcases shape_of_mem_ownImports built member with
    ⟨specifier, -, -, ⟨names, rfl⟩ | ⟨model, held, rfl⟩⟩
  · exact ⟨target, by simp [typeImport], by simp [typeImport], fits.models,
      .inr (.inr names)⟩
  · refine ⟨target, ?_, by simp, by simp, by simp⟩
    rintro name ⟨⟩
    exact fits.query model held

theorem IsReadable.brought (fits : call.IsReadable directory path)
    (made : call.imports directory path = .ok imports) : ∀ entry ∈ imports, entry.Readable := by
  intro entry member
  rcases source_of_mem_apiImports made member with
    ⟨setting, held, text, spelled, inside⟩ | ⟨own, builds, statement, listed, rfl⟩
  · exact (fits.configured setting held text spelled).entries entry inside
  · exact fits.built builds listed

/-- One added function: the file reads as the statements that were there, with those of the call. -/
theorem IsReadable.added (fits : call.IsReadable directory path) (whole : WholeStatements content)
    (accumulated : Accumulated given (splitSource content).imports)
    (made : call.imports directory path = .ok imports) :
    WholeStatements (reread (extendSource content imports call.api.sourceCode)) ∧
      Accumulated (given ++ imports)
        (splitSource (reread (extendSource content imports call.api.sourceCode))).imports := by
  have extended := accumulated.extend (fits.brought made)
  have readable : ∀ entry ∈ mergedWith content imports, entry.Readable :=
    (merged_mergeImports accumulated.readable (fits.brought made)).readable
  have printable : ∀ entry ∈ mergedWith content imports, entry.Printable :=
    fun entry member => (readable entry member).printable
  have lines : statementLines (reread (extendSource content imports call.api.sourceCode)) =
      (mergedWith content imports).flatMap ImportEntry.lines := by
    rw [statementLines_reread, statementsIn_extendSource whole printable fits.plain]
  have whole' : WholeStatements (reread (extendSource content imports call.api.sourceCode)) := by
    unfold WholeStatements
    rw [lines]
    exact fun line member => (isStatement_of_mem_lines printable line member).complete
  refine ⟨whole', ?_⟩
  rw [splitSource_of_whole whole', lines, ImportEntry.Readable.parse_flatMap_lines readable]
  exact extended

end Added

end FileCall

theorem reported_cons (call : FileCall) (calls : List FileCall) (written : Bool)
    (flags : List Bool) :
    FileCall.reported (call :: calls) (written :: flags) =
      (if written then [call] else []) ++ FileCall.reported calls flags := by
  cases written <;> rfl

theorem accumulated_of_calls {path content : String} {calls : List FileCall}
    {before after : Workspace} {flags : List Bool} {given : List ImportEntry}
    (start : Yields (Work.fileText path) before content before)
    (ran : Yields (calls.mapM (FileCall.write path)) before flags after)
    (fits : ∀ call ∈ calls, call.IsReadable before.directory path)
    (whole : WholeStatements content)
    (accumulated : Accumulated given (splitSource content).imports) :
    ∃ final imports, Yields (Work.fileText path) after final after ∧
      (FileCall.reported calls flags).mapM (FileCall.imports before.directory path) = .ok imports ∧
      Accumulated (given ++ imports.flatten) (splitSource final).imports := by
  induction calls generalizing before flags content given with
  | nil =>
      rcases (yields_mapM_nil _ _ _ _).mp ran with ⟨rfl, rfl⟩
      refine ⟨content, [], start, rfl, ?_⟩
      rw [List.flatten_nil, List.append_nil]
      exact accumulated
  | cons call rest ih =>
      rcases (yields_mapM_cons _ _ _ _ _ _).mp ran with
        ⟨written, between, others, wrote, later, rfl⟩
      have fits' := fun other member => fits other (List.mem_cons_of_mem call member)
      rcases write_cases start wrote with
        ⟨rfl, rfl, -⟩ | ⟨rfl, -, -, imports, made, directory, read⟩
      · exact ih start later fits' whole accumulated
      · -- What was given grows by the imports of the call, and the rest of the run starts from it.
        rcases (fits call (by simp)).added whole accumulated made with ⟨whole', accumulated'⟩
        rw [← directory] at fits'
        rcases ih read later fits' whole' accumulated' with ⟨final, more, ends, built, final_holds⟩
        rw [directory] at built
        refine ⟨final, imports :: more, ends, ?_, ?_⟩
        · rw [reported_cons, if_pos rfl, List.singleton_append, mapM_eq_ok]
          exact .cons made ((mapM_eq_ok _ _ _).mp built)
        · rw [List.flatten_cons, ← List.append_assoc]
          exact final_holds

/-- Calls that are made one after the other on a file that is absent or empty. -/
structure ReadableRun (path : String) (calls : List FileCall) (before : Workspace)
    (flags : List Bool) (after : Workspace) : Prop where
  start : Yields (Work.fileText path) before "" before
  ran : Yields (calls.mapM (FileCall.write path)) before flags after
  readable : ∀ call ∈ calls, call.IsReadable before.directory path

/-- The file binds what the accepted calls brought, and keeps each of their other statements once;
it binds nothing twice if every path has one default name. -/
theorem ReadableRun.accumulates {path : String} {calls : List FileCall} {before after : Workspace}
    {flags : List Bool} (run : ReadableRun path calls before flags after) :
    ∃ final imports, Yields (Work.fileText path) after final after ∧
      (FileCall.reported calls flags).mapM (FileCall.imports before.directory path) = .ok imports ∧
      Accumulated imports.flatten (splitSource final).imports := by
  have whole : WholeStatements "" := by
    intro line member
    cases member
  have empty : Accumulated [] (splitSource "").imports :=
    { Merged.nil with distinct := fun _ => List.nodup_nil }
  exact accumulated_of_calls run.start run.ran run.readable whole empty

section Instances

def typesCall : FileCall :=
  { api := { plainApi "/u" "@UNOAPI[get:/u]" with
      typeNames := ["U"]
      queryModel := some { sourceCode := "", typeName := "Q", fileName := "Q" } }
    modelDir := "m"
    options := { imports := [.text "import type D, \x7b a \x7d from 'c'", .text "import 'b'"] } }

def namesCall : FileCall :=
  { api := plainApi "/v" "@UNOAPI[get:/v]"
    options :=
      { imports := [.text "import type \x7b a, b as c \x7d from 'c'", .text "import 'b'"] } }

def readableText : String :=
  "import type D from 'c';\nimport type \x7b a, b as c \x7d from 'c';\nimport 'b'\n" ++
    "import type \x7b U \x7d from './m';\nimport type Q from './query/Q';\n\n" ++
    "@UNOAPI[get:/u]\n\n@UNOAPI[get:/v]\n"

theorem readableStatements_of_check {code : String}
    (whole : (statementLines code).all ImportText.isComplete = true)
    (readable :
      (itemsOf (splitSource code).imports).all (fun statement => statement.Readable) = true) :
    ReadableStatements code :=
  ⟨List.all_eq_true.mp whole, fun statement member => by
    simpa using List.all_eq_true.mp readable statement member⟩

theorem isReadable_typesCall : typesCall.IsReadable [] "a.ts" where
  plain := by decide +kernel
  configured := by
    intro setting member text spelled
    simp only [typesCall, List.mem_cons, List.not_mem_nil, or_false] at member
    rcases member with rfl | rfl
    · cases spelled
      exact readableStatements_of_check (by decide +kernel) (by decide +kernel)
    · cases spelled
      exact readableStatements_of_check (by decide +kernel) (by decide +kernel)
  models := by decide +kernel
  query := by decide +kernel
  paths := by
    intro own built statement member
    have shape : typesCall.built [] "a.ts" = .ok [typeImport "./m" ["U"],
        { path := "./query/Q", defaultName := some "Q", onlyType := true }] :=
      rfl
    rw [shape] at built
    cases built
    revert statement
    decide +kernel

theorem isReadable_namesCall : namesCall.IsReadable [] "a.ts" where
  plain := by decide +kernel
  configured := by
    intro setting member text spelled
    simp only [namesCall, List.mem_cons, List.not_mem_nil, or_false] at member
    rcases member with rfl | rfl
    · cases spelled
      exact readableStatements_of_check (by decide +kernel) (by decide +kernel)
    · cases spelled
      exact readableStatements_of_check (by decide +kernel) (by decide +kernel)
  models := by decide +kernel
  query := by simp [namesCall, plainApi]
  paths := by
    intro own built statement member
    have shape : namesCall.built [] "a.ts" = .ok [] := rfl
    rw [shape] at built
    cases built
    cases member

theorem readableRun_typesCall : ReadableRun "a.ts" [typesCall, namesCall] {} [true, true]
    (workspaceWith readableText) where
  start := yields_of_check (by decide +kernel)
  ran := yields_of_check (by decide +kernel)
  readable := by
    intro call member
    simp only [List.mem_cons, List.not_mem_nil, or_false] at member
    rcases member with rfl | rfl
    · exact isReadable_typesCall
    · exact isReadable_namesCall

def typesImports : List (List ImportEntry) :=
  [[.item { path := "c", defaultName := some "D", names := ["a"], onlyType := true },
      .verbatim "import 'b'", .item (typeImport "./m" ["U"]),
      .item { path := "./query/Q", defaultName := some "Q", onlyType := true }],
    [.item { path := "c", names := ["a", "b as c"], onlyType := true }, .verbatim "import 'b'"]]

/-- The first statement is printed as two, and the second call adds to one of them. -/
theorem accumulates_typesCall :
    ReadableRun "a.ts" [typesCall, namesCall] {} [true, true] (workspaceWith readableText) ∧
      Accumulated typesImports.flatten (splitSource readableText).imports ∧
      (bindingsOf (splitSource readableText).imports).Nodup := by
  rcases readableRun_typesCall.accumulates with ⟨final, imports, read, made, accumulated⟩
  have written : Yields (Work.fileText "a.ts") (workspaceWith readableText) readableText
      (workspaceWith readableText) :=
    yields_of_check (by decide +kernel)
  have brought : (FileCall.reported [typesCall, namesCall] [true, true]).mapM
      (FileCall.imports [] "a.ts") = .ok typesImports :=
    eq_ok_of_toOption (by decide +kernel)
  rw [(read.unique written).1] at accumulated
  have same : imports = typesImports := Except.ok.inj (made.symm.trans brought)
  rw [same] at accumulated
  have single : OneDefault (· ∈ bindingsOf typesImports.flatten) :=
    oneDefault_of_pairs (by decide +kernel)
  exact ⟨readableRun_typesCall, accumulated, accumulated.distinct single⟩

end Instances

end TypedClient

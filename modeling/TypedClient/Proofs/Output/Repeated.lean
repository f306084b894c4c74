import TypedClient.Proofs.Output.Marks
import TypedClient.Proofs.Output.Run

namespace TypedClient

/-- A call whose function carries its mark and opens no import, with complete configured imports. -/
structure FileCall.CarriesMark (call : FileCall) : Prop where
  marked : containsText call.api.mark call.api.sourceCode = true
  plain : statementLines call.api.sourceCode = []
  configured : ∀ setting ∈ call.options.imports, ∀ text, setting.toText = .ok text →
    WholeStatements text

/-- A call whose mark and whose imports are found again as they were written. -/
structure FileCall.StaysWhole (directory : Place) (path : String) (call : FileCall) : Prop where
  feeds : ∀ c ∈ call.api.mark.toList, Text.isLineBreak c = true → c = '\n'
  configured : ∀ setting ∈ call.options.imports, ∀ text, setting.toText = .ok text →
    ∀ line ∈ statementLines text, Unmarked line
  built : ∀ own, call.built directory path = .ok own → ∀ statement ∈ own,
    ImportText.IsClean statement.text.toList

structure FileCall.IsRepeatable (directory : Place) (path : String) (call : FileCall) : Prop where
  carries : call.CarriesMark
  whole : call.StaysWhole directory path

theorem FileCall.IsRepeatable.configured {directory : Place} {path : String} {call : FileCall}
    (fits : call.IsRepeatable directory path) : ∀ setting ∈ call.options.imports, ∀ text,
      setting.toText = .ok text → CleanStatements text :=
  fun setting member text spelled line inside =>
    ⟨unbroken_of_mem_statementLines inside,
      fits.carries.configured setting member text spelled line inside,
      fits.whole.configured setting member text spelled line inside⟩

structure Stands (directory : Place) (path mark : String) (disk : Disk) : Prop where
  located : disk.locate directory path = .ok (Path.absolute directory path)
  named : Path.endsWith "/" path = false
  held : ∃ text, disk.file? (Path.absolute directory path) = some (.text text) ∧
    containsText mark (reread text) = true

/-- What stands at a place is source code as the writer leaves it, or nothing. -/
structure TidyAt (place : Place) (disk : Disk) : Prop where
  readable : ∀ bytes, disk.file? place ≠ some (.binary bytes)
  tidy : Tidy (shownText (disk.file? place))
  housed : disk.Housed place

section Steps

variable {directory place : Place} {path mark : String} {call : FileCall} {edits : List Edit}
  {before after : Workspace} {written : Bool}

theorem Stands.kept (stands : Stands before.directory path mark before.disk)
    (performed : Performed edits before after)
    (apart : ∀ edit ∈ edits,
      edit.place before.directory ≠ Path.absolute before.directory path) :
    Stands before.directory path mark after.disk where
  located := Disk.locate_grows performed.grows stands.located
  named := stands.named
  held := by
    rw [performed.files, Edit.replay_elsewhere apart]
    exact stands.held

theorem TidyAt.kept (tidy : TidyAt place before.disk) (performed : Performed edits before after)
    (apart : ∀ edit ∈ edits, edit.place before.directory ≠ place) : TidyAt place after.disk := by
  have same : after.disk.file? place = before.disk.file? place := by
    rw [performed.files, Edit.replay_elsewhere apart]
  exact ⟨by rw [same]; exact tidy.readable, by rw [same]; exact tidy.tidy,
    performed.housed place tidy.housed⟩

/-- A function that stands in its file is not written again. -/
theorem write_of_stands (stands : Stands before.directory path call.api.mark before.disk) :
    Yields (call.write path) before false before := by
  rcases stands.held with ⟨text, held, marked⟩
  have reads : Yields (Work.fileText path) before (reread text) before := by
    refine Work.yields_fileText_iff.mpr
      ⟨rfl, .inr ⟨Path.absolute before.directory path, text, ?_, rfl⟩⟩
    rw [Disk.fileAt?_of_locate stands.located stands.named, held]
    rfl
  exact yields_write_false (.inr ⟨_, reads, marked⟩)

theorem write_of_empty (empty : call.api.sourceCode = "") :
    Yields (call.write path) before false before :=
  yields_write_false (.inl empty)

end Steps

section Functions

variable {path : String} {call : FileCall} {before after : Workspace} {written : Bool}

theorem not_marked_empty {api : Api} (block : Text.IsBlock api.mark.toList) :
    containsText api.mark "" = false := by
  rw [Bool.eq_false_iff]
  intro marked
  exact block.given (List.infix_nil.mp ((Text.contains_iff _ _).mp marked))

theorem cases_of_write (fits : call.IsRepeatable before.directory path)
    (tidy : TidyAt (Path.absolute before.directory path) before.disk)
    (given : call.api.sourceCode ≠ "") (ran : Yields (call.write path) before written after) :
    (after = before ∧ Stands before.directory path call.api.mark before.disk) ∨
    ∃ imports, (∀ entry ∈ imports, entry.IsClean) ∧
      Performed [.put path (extendSource
        (shownText (before.disk.file? (Path.absolute before.directory path))) imports
          call.api.sourceCode)] before after := by
  rcases yields_write ran with ⟨-, rfl, empty | ⟨content, reads, marked⟩⟩ |
    ⟨-, -, content, imports, reads, -, made, saves⟩
  · exact absurd empty given
  · left
    refine ⟨rfl, ?_⟩
    rcases (Work.yields_fileText_iff.mp reads).2 with ⟨-, rfl⟩ | ⟨place, text, found, rfl⟩
    · rw [not_marked_empty (isBlock_mark fits.whole.feeds)] at marked
      cases marked
    · rcases Disk.located_of_fileAt? found with ⟨located, named, held⟩
      exact ⟨located, named, text, held, marked⟩
  · right
    refine ⟨imports, isClean_apiImports fits.configured fits.whole.built made, ?_⟩
    rw [← Work.eq_shownText_of_saved reads saves tidy.housed]
    exact .of_saved (Work.saved_of_yields saves) rfl

section Added

variable {imports : List ImportEntry} {code : String}

theorem file?_of_put {text : String} (performed : Performed [.put path text] before after)
    (place : Place) :
    after.disk.file? place = if place = Path.absolute before.directory path then some (.text text)
      else before.disk.file? place := by
  rw [performed.files]
  exact Function.update_apply _ _ _ _

theorem TidyAt.added {place : Place} (tidy : TidyAt place before.disk)
    (clean : ∀ entry ∈ imports, entry.IsClean) (plain : statementLines code = [])
    (performed : Performed [.put path (extendSource
      (shownText (before.disk.file? (Path.absolute before.directory path))) imports code)]
        before after) : TidyAt place after.disk := by
  have file := file?_of_put performed place
  refine ⟨?_, ?_, performed.housed place tidy.housed⟩
  · rw [file]
    split
    · intro bytes differs
      cases differs
    · exact tidy.readable
  · rw [file]
    split
    · rename_i same
      rw [← same]
      exact tidy.tidy.extended clean plain
    · exact tidy.tidy

theorem Stands.added {other : String} {api : Api}
    (stands : Stands before.directory other api.mark before.disk)
    (tidy : TidyAt (Path.absolute before.directory other) before.disk)
    (block : Text.IsBlock api.mark.toList)
    (performed : Performed [.put path (extendSource
      (shownText (before.disk.file? (Path.absolute before.directory path))) imports code)]
        before after) : Stands before.directory other api.mark after.disk where
  located := Disk.locate_grows performed.grows stands.located
  named := stands.named
  held := by
    rcases stands.held with ⟨text, held, marked⟩
    rw [file?_of_put performed]
    split
    · rename_i same
      rw [← same, held]
      have content := tidy.tidy
      rw [held] at content
      exact ⟨_, rfl, content.holds_mark block (.inl marked)⟩
    · exact ⟨text, held, marked⟩

theorem stands_of_added {api : Api} (block : Text.IsBlock api.mark.toList)
    (tidy : TidyAt (Path.absolute before.directory path) before.disk)
    (marked : containsText api.mark code = true)
    (performed : Performed [.put path (extendSource
      (shownText (before.disk.file? (Path.absolute before.directory path))) imports code)]
        before after) : Stands before.directory path api.mark after.disk where
  located := (Disk.target_eq_ok.mp (performed.ready _ (List.mem_singleton.mpr rfl)).target).1
  named := (Disk.target_eq_ok.mp (performed.ready _ (List.mem_singleton.mpr rfl)).target).2.1
  held := by
    rw [file?_of_put performed, if_pos rfl]
    exact ⟨_, rfl, tidy.tidy.holds_mark block (.inr marked)⟩

end Added

end Functions

structure KeepsApart (directory : Place) (schemas : Schemas) (target : OutputTarget)
    (options : WriteOptions) (apis : List Api) : Prop where
  functions : ∀ api ∈ apis, api.sourceCode ≠ "" →
    (target.call options api).IsRepeatable directory (target.apiPath api)
  apart : ∀ api ∈ apis, api.sourceCode ≠ "" → ∀ other ∈ apis,
    ∀ path ∈ other.interfacePaths schemas target,
      Path.absolute directory path ≠ Path.absolute directory (target.apiPath api)

def TidyFunctions (directory : Place) (target : OutputTarget) (apis : List Api) (disk : Disk) :
    Prop :=
  ∀ api ∈ apis, api.sourceCode ≠ "" → TidyAt (Path.absolute directory (target.apiPath api)) disk

def Api.Stands (directory : Place) (target : OutputTarget) (api : Api) (disk : Disk) : Prop :=
  TypedClient.Stands directory (target.apiPath api) api.mark disk

section Run

variable {directory : Place} {schemas : Schemas} {target : OutputTarget} {options : WriteOptions}
  {apis all : List Api} {api : Api} {before after : Workspace} {result result' : WriteResult}

theorem stands_of_function {written : Bool}
    (keeps : KeepsApart before.directory schemas target options all) (member : api ∈ all)
    (tidy : TidyFunctions before.directory target all before.disk)
    (ran : Yields ((target.call options api).write (target.apiPath api)) before written after) :
    TidyFunctions before.directory target all after.disk ∧
      (∀ other ∈ all, other.sourceCode ≠ "" → other.Stands before.directory target before.disk →
        other.Stands before.directory target after.disk) ∧
      (api.sourceCode ≠ "" → api.Stands before.directory target after.disk) := by
  by_cases given : api.sourceCode = ""
  · have still := (ran.unique (write_of_empty given)).2
    rw [still]
    exact ⟨tidy, fun _ _ _ stands => stands, fun given' => absurd given given'⟩
  · have own := keeps.functions api member given
    have file := tidy api member given
    rcases cases_of_write own file given ran with ⟨rfl, stands⟩ | ⟨imports, clean, performed⟩
    · exact ⟨tidy, fun _ _ _ stands => stands, fun _ => stands⟩
    · refine ⟨?_, ?_, ?_⟩
      · exact fun other member' given' =>
          (tidy other member' given').added clean own.carries.plain performed
      · intro other member' given' stands
        exact stands.added (tidy other member' given')
          (isBlock_mark (keeps.functions other member' given').whole.feeds) performed
      · exact fun _ => stands_of_added (isBlock_mark own.whole.feeds) file own.carries.marked
          performed

theorem apart_of_interfaceEdits {edits : List Edit} {other : Api}
    (keeps : KeepsApart directory schemas target options all) (member : api ∈ all)
    (made : interfaceEdits directory schemas target options api = .ok edits)
    (member' : other ∈ all) (given : other.sourceCode ≠ "") :
    ∀ edit ∈ edits,
      edit.place directory ≠ Path.absolute directory (target.apiPath other) :=
  fun edit held => keeps.apart other member' given api member edit.path
    (path_mem_interfacePaths made held)

theorem stands_of_writeApi (keeps : KeepsApart before.directory schemas target options all)
    (member : api ∈ all) (tidy : TidyFunctions before.directory target all before.disk)
    (housed : before.disk.Housed
      (Path.absolute before.directory (indexPath (target.modelDir api))))
    (ran : Yields (writeApi schemas target options result api) before result' after) :
    TidyFunctions before.directory target all after.disk ∧
      (∀ other ∈ all, other.sourceCode ≠ "" → other.Stands before.directory target before.disk →
        other.Stands before.directory target after.disk) ∧
      (api.sourceCode ≠ "" → api.Stands before.directory target after.disk) := by
  rcases performed_of_writeApi ran housed with
    ⟨written, between, edits, wrote, made, interfaces, -⟩
  rcases performed_of_write wrote with ⟨_, -, function⟩
  rcases stands_of_function keeps member tidy wrote with ⟨tidy', kept, own⟩
  have apart : ∀ other ∈ all, other.sourceCode ≠ "" → ∀ edit ∈ edits,
      edit.place before.directory ≠ Path.absolute before.directory (target.apiPath other) :=
    fun _ member' given => apart_of_interfaceEdits keeps member made member' given
  rw [← function.directory] at apart tidy' kept own ⊢
  refine ⟨?_, ?_, ?_⟩
  · exact fun other member' given =>
      (tidy' other member' given).kept interfaces (apart other member' given)
  · exact fun other member' given stands =>
      TypedClient.Stands.kept (kept other member' given stands) interfaces
        (apart other member' given)
  · exact fun given => TypedClient.Stands.kept (own given) interfaces (apart api member given)

theorem stands_of_run (here : before.directory = directory)
    (keeps : KeepsApart directory schemas target options all) (within : apis ⊆ all)
    (tidy : TidyFunctions directory target all before.disk)
    (housed : ∀ api ∈ apis, before.disk.Housed
      (Path.absolute directory (indexPath (target.modelDir api))))
    (ran : Yields (apis.foldlM (writeApi schemas target options) result) before result' after) :
    (∀ other ∈ all, other.sourceCode ≠ "" → other.Stands directory target before.disk →
        other.Stands directory target after.disk) ∧
      ∀ api ∈ apis, api.sourceCode ≠ "" → api.Stands directory target after.disk := by
  induction apis generalizing before result with
  | nil =>
      rw [((yields_foldlM_nil _ _ _ _ _).mp ran).2]
      exact ⟨fun _ _ _ stands => stands, List.forall_mem_nil _⟩
  | cons api rest ih =>
      subst here
      rcases (yields_foldlM_cons _ _ _ _ _ _ _).mp ran with ⟨next, between, first, later⟩
      have member : api ∈ all := within (by simp)
      have housed_first := housed api (by simp)
      rcases stands_of_writeApi keeps member tidy housed_first first with ⟨tidy', kept, own⟩
      rcases exists_step first housed_first with ⟨step, -, performed, -⟩
      have housed' : ∀ other ∈ rest, between.disk.Housed
          (Path.absolute before.directory (indexPath (target.modelDir other))) :=
        fun other inside => performed.housed _ (housed other (by simp [inside]))
      rcases ih performed.directory (fun other inside => within (by simp [inside])) tidy' housed'
        later with ⟨kept', stands⟩
      refine ⟨fun other inside given held =>
          kept' other inside given (kept other inside given held),
        ?_⟩
      intro other inside given
      rcases List.mem_cons.mp inside with rfl | inside'
      · exact kept' other member given (own given)
      · exact stands other inside' given

/-- A run over functions that stand in their files writes the interfaces only. -/
theorem exists_run_again {edits : List (List Edit)} (start : WriteResult)
    (here : before.directory = directory)
    (keeps : KeepsApart directory schemas target options all) (within : apis ⊆ all)
    (stands : ∀ api ∈ all, api.sourceCode ≠ "" → api.Stands directory target before.disk)
    (made : List.Forall₂ (fun api edits =>
      interfaceEdits directory schemas target options api = .ok edits) apis edits)
    (ready : ∀ edit ∈ edits.flatten, before.disk.Ready directory edit.path)
    (readable : ∀ api ∈ apis, ∀ bytes, before.disk.file?
      (Path.absolute directory (indexPath (target.modelDir api))) ≠ some (.binary bytes))
    (housed : ∀ api ∈ apis, before.disk.Housed
      (Path.absolute directory (indexPath (target.modelDir api)))) :
    ∃ after, Yields (apis.foldlM (writeApi schemas target options) start) before
        { functions := start.functions
          modelFiles := apis.foldl (collectFiles schemas target) start.modelFiles } after ∧
      Performed edits.flatten before after := by
  induction made generalizing before start with
  | nil => exact ⟨before, (yields_foldlM_nil _ _ _ _ _).mpr ⟨rfl, rfl⟩, .nothing rfl rfl⟩
  | @cons api own rest others own_made _ ih =>
      subst here
      have member : api ∈ all := within (by simp)
      have skips : Yields ((target.call options api).write (target.apiPath api)) before false
          before := by
        by_cases given : api.sourceCode = ""
        · exact write_of_empty given
        · exact write_of_stands (stands api member given)
      rcases exists_writeApi start skips own_made
        (fun edit inside => ready edit (List.mem_append_left _ inside))
          (readable api (by simp)) with
        ⟨next, between, first⟩
      rcases performed_of_writeApi first (housed api (by simp)) with
        ⟨written, _, edits, wrote, made', performed, rfl⟩
      rcases skips.unique wrote with ⟨rfl, rfl⟩
      rw [own_made] at made'
      cases made'
      have apart : ∀ other ∈ all, other.sourceCode ≠ "" → ∀ edit ∈ own,
          edit.place before.directory ≠ Path.absolute before.directory (target.apiPath other) :=
        fun _ member' given => apart_of_interfaceEdits keeps member own_made member' given
      have stands' : ∀ other ∈ all, other.sourceCode ≠ "" →
          other.Stands before.directory target between.disk :=
        fun other member' given => TypedClient.Stands.kept (stands other member' given) performed
          (apart other member' given)
      have ready' : ∀ edit ∈ others.flatten, between.disk.Ready before.directory edit.path :=
        fun edit inside => (ready edit (List.mem_append_right _ inside)).grows performed.grows
      have readable' : ∀ other ∈ rest, ∀ bytes, between.disk.file?
          (Path.absolute before.directory (indexPath (target.modelDir other))) ≠
            some (.binary bytes) := by
        intro other inside
        rw [performed.files, Edit.replay_at]
        exact Edit.foldl_fill_text (readable other (by simp [inside])) _
      have housed' : ∀ other ∈ rest, between.disk.Housed
          (Path.absolute before.directory (indexPath (target.modelDir other))) :=
        fun other inside => performed.housed _ (housed other (by simp [inside]))
      rcases ih _ performed.directory (fun other inside => within (by simp [inside])) stands' ready'
        readable' housed' with ⟨after, later, performed'⟩
      exact ⟨after, (yields_foldlM_cons _ _ _ _ _ _ _).mpr ⟨_, between, first, later⟩,
        performed.append performed'⟩

end Run

/-- A run on a disk without the files of its functions and without indexes. Functions carry their
marks and go to files of their own, and models have names that an index can list. -/
structure FreshRun (schemas : Schemas) (target : OutputTarget) (options : WriteOptions)
    (apis : List Api) (before : Workspace) : Prop where
  functions : ∀ api ∈ apis, api.sourceCode ≠ "" → (target.call options api).CarriesMark
  models : ∀ api ∈ apis, ∀ models, api.found schemas = .ok models → ∀ model ∈ models,
    IsModelName model.fileName
  apart : ∀ api ∈ apis, api.sourceCode ≠ "" → ∀ other ∈ apis,
    ∀ path ∈ other.interfacePaths schemas target,
      Path.absolute before.directory path ≠ Path.absolute before.directory (target.apiPath api)
  absent : ∀ api ∈ apis, api.sourceCode ≠ "" →
    before.disk.file? (Path.absolute before.directory (target.apiPath api)) = none
  unlisted : ∀ api ∈ apis,
    before.disk.file? (Path.absolute before.directory (indexPath (target.modelDir api))) = none

namespace FreshRun

variable {schemas : Schemas} {target : OutputTarget} {options : WriteOptions} {apis : List Api}
  {before after : Workspace} {result : WriteResult}

theorem keepsApart (run : FreshRun schemas target options apis before)
    (whole : ∀ api ∈ apis, api.sourceCode ≠ "" →
      (target.call options api).StaysWhole before.directory (target.apiPath api)) :
    KeepsApart before.directory schemas target options apis where
  functions := fun api member given =>
    ⟨run.functions api member given, whole api member given⟩
  apart := run.apart

theorem housed_indexes (run : FreshRun schemas target options apis before) :
    ∀ api ∈ apis, before.disk.Housed
      (Path.absolute before.directory (indexPath (target.modelDir api))) := by
  intro api member stands
  rw [run.unlisted api member] at stands
  cases stands

theorem tidyFunctions (run : FreshRun schemas target options apis before) :
    TidyFunctions before.directory target apis before.disk := by
  intro api member given
  have absent := run.absent api member given
  refine ⟨?_, ?_, ?_⟩
  · rw [absent]
    intro bytes differs
    cases differs
  · rw [absent]
    exact tidy_empty
  · intro stands
    rw [absent] at stands
    cases stands

/-- The edits of the interfaces in a run: all that it does outside the files of functions. -/
theorem exists_interfaces {directory : Place} {steps : List (List Edit)}
    (writes : List.Forall₂ (Api.WritesBy directory schemas target options) apis steps) :
    ∃ edits, List.Forall₂ (fun api edits =>
        interfaceEdits directory schemas target options api = .ok edits) apis edits ∧
      (∀ edit ∈ edits.flatten, edit ∈ steps.flatten) ∧
      ∀ place, (∀ api ∈ apis, api.sourceCode ≠ "" →
          Path.absolute directory (target.apiPath api) ≠ place) →
        Edit.touching directory place steps.flatten =
          Edit.touching directory place edits.flatten := by
  induction writes with
  | nil => exact ⟨[], .nil, List.forall_mem_nil _, fun _ _ => rfl⟩
  | @cons api step rest _ own_writes _ ih =>
      rcases own_writes with ⟨own, interfaces, rfl, kind, made⟩
      rcases ih with ⟨edits, made', inside, same⟩
      refine ⟨interfaces :: edits, .cons made made', ?_, ?_⟩
      · intro edit member
        rcases List.mem_append.mp member with first | later
        · exact List.mem_append_left _ (List.mem_append_right _ first)
        · exact List.mem_append_right _ (inside edit later)
      · intro place apart
        have elsewhere : Edit.touching directory place own = [] := by
          rcases kind with rfl | ⟨given, text, rfl⟩
          · rfl
          · apply Edit.touching_eq_nil
            intro edit member
            rw [List.mem_singleton.mp member]
            exact apart api (by simp) given
        rw [List.flatten_cons, List.flatten_cons, Edit.touching_append, Edit.touching_append,
          Edit.touching_append, elsewhere, List.nil_append,
          same place fun other member => apart other (by simp [member])]

theorem repeatable_of_interface (run : FreshRun schemas target options apis before)
    {edits : List (List Edit)} (made : List.Forall₂ (fun api edits =>
      interfaceEdits before.directory schemas target options api = .ok edits) apis edits)
    {place : Place} {edit : Edit}
    (member : edit ∈ Edit.touching before.directory place edits.flatten) :
    Repeatable (before.disk.file? place) edit := by
  rcases Edit.mem_touching.mp member with ⟨inside, here⟩
  rcases List.mem_flatten.mp inside with ⟨own, listed, held⟩
  rcases partner_of_mem made listed with ⟨api, called, interfaces⟩
  rcases mem_interfaceEdits interfaces held with ⟨model, -, -, text, put⟩ |
    ⟨models, found, ⟨model, -, rfl⟩ | ⟨added, listings, rfl⟩⟩
  · rw [put]
    exact .put _ _
  · exact .put _ _
  · have named := run.models api called models found
    rw [modelListings_of_named named] at listings
    cases listings
    have absent := run.unlisted api called
    rw [← here]
    refine .list ⟨indexPath (target.modelDir api), options.asGlobal, models.map Model.fileName⟩ ?_
      absent
    intro name listed_name
    rcases List.mem_map.mp listed_name with ⟨model, own_model, rfl⟩
    exact named model own_model

theorem readable_indexes (run : FreshRun schemas target options apis before) {edits : List Edit}
    (performed : Performed edits before after) : ∀ api ∈ apis, ∀ bytes, after.disk.file?
      (Path.absolute before.directory (indexPath (target.modelDir api))) ≠
        some (.binary bytes) := by
  intro api member
  rw [performed.files, Edit.replay_at]
  refine Edit.foldl_fill_text ?_ _
  rw [run.unlisted api member]
  intro bytes differs
  cases differs

/-- A run that is repeated adds no function, lists the same models, and leaves every file as it
is. -/
theorem writes_again (run : FreshRun schemas target options apis before)
    (whole : ∀ api ∈ apis, api.sourceCode ≠ "" →
      (target.call options api).StaysWhole before.directory (target.apiPath api))
    (ran : Yields (writeAll apis schemas target options) before result after) :
    ∃ again, Yields (writeAll apis schemas target options) after
        { functions := 0, modelFiles := result.modelFiles } again ∧
      ∀ place, again.disk.file? place = after.disk.file? place := by
  have keeps := run.keepsApart whole
  have housed := run.housed_indexes
  rcases performed_of_run ran housed with ⟨⟨steps, writes, performed⟩, collected⟩
  rcases exists_interfaces writes with ⟨edits, made, inside, same⟩
  have stands := (stands_of_run rfl keeps (List.Subset.refl _) run.tidyFunctions housed ran).2
  have ready : ∀ edit ∈ edits.flatten, after.disk.Ready before.directory edit.path :=
    fun edit member => performed.ready edit (inside edit member)
  rcases exists_run_again {} performed.directory keeps (List.Subset.refl _) stands made ready
    (run.readable_indexes performed) fun api member => performed.housed _ (housed api member) with
    ⟨again, ran', performed'⟩
  rw [← collected] at ran'
  refine ⟨again, ran', fun place => ?_⟩
  rw [performed'.files, performed.directory]
  by_cases function : ∃ api ∈ apis, api.sourceCode ≠ "" ∧
      Path.absolute before.directory (target.apiPath api) = place
  · rcases function with ⟨api, member, given, rfl⟩
    apply Edit.replay_elsewhere
    intro edit listed
    rcases List.mem_flatten.mp listed with ⟨own, held, written⟩
    rcases partner_of_mem made held with ⟨other, called, interfaces⟩
    exact apart_of_interfaceEdits keeps called interfaces member given edit written
  · have apart : ∀ api ∈ apis, api.sourceCode ≠ "" →
        Path.absolute before.directory (target.apiPath api) ≠ place :=
      fun api member given here => function ⟨api, member, given, here⟩
    -- Outside the files of functions both runs make the same edits, which are made twice.
    rw [Edit.replay_at, performed.files, Edit.replay_at, same place apart]
    exact foldl_fill_twice fun edit member => run.repeatable_of_interface made member

end FreshRun

section Instances

def mixedApis : List Api :=
  [{ plainApi "/u" "@UNOAPI[get:/u]" with
      typeNames := ["U"]
      queryModel := some { sourceCode := "q", typeName := "Q", fileName := "Q" }
      models := fun _ => pure [{ sourceCode := "u", typeName := "U", fileName := "U" }] },
    plainApi "/v" "@UNOAPI[get:/v]"]

def mixedOptions : WriteOptions := { imports := [.text "import 'b'"] }

def mixedWorkspace : Workspace :=
  { disk :=
      { directories := [[], ["query"], ["model"]]
        files := [(["f.ts"], .text ("import 'b'\nimport type \x7b U \x7d from './model';\n" ++
            "import type Q from './query/Q';\n\n@UNOAPI[get:/u]\n\n@UNOAPI[get:/v]\n")),
          (["query", "Q.ts"], .text "q"), (["model", "U.ts"], .text "u"),
          (["model", "index.ts"],
            .text "import U from './U';\n\nexport \x7b\n  U,\n\x7d\n")] }
    reported := ["f.ts", "query/Q.ts", "model/U.ts", "f.ts"] }

theorem freshRun_mixed : FreshRun [] { functions := "f.ts" } mixedOptions mixedApis {} where
  functions := by
    intro api member _
    simp only [mixedApis, List.mem_cons, List.not_mem_nil, or_false] at member
    rcases member with rfl | rfl <;> refine ⟨by decide +kernel, by decide +kernel, ?_⟩ <;>
    · intro setting listed text spelled
      rw [List.mem_singleton.mp listed] at spelled
      cases spelled
      exact (cleanStatements_of_check (by decide +kernel)).whole
  models := by
    intro api member models found model listed
    simp only [mixedApis, List.mem_cons, List.not_mem_nil, or_false] at member
    rcases member with rfl | rfl
    · cases found
      rw [List.mem_singleton.mp listed]
      decide
    · cases found
      cases listed
  apart := by decide +kernel
  absent := fun _ _ _ => rfl
  unlisted := fun _ _ => rfl

theorem staysWhole_of_check {directory : Place} {path : String} {call : FileCall}
    (feeds : call.api.mark.toList.all (fun c => !Text.isLineBreak c || c == '\n') = true)
    (configured : ∀ setting ∈ call.options.imports, ∀ text, setting.toText = .ok text →
      ∀ line ∈ statementLines text, Unmarked line)
    (built : ((call.built directory path).toOption.getD []).all
      (fun statement => ImportText.checkClean statement.text.toList) = true) :
    call.StaysWhole directory path where
  feeds := feeds_of_check feeds
  configured := configured
  built := by
    intro own made statement member
    rw [made] at built
    exact ImportText.isClean_of_check (List.all_eq_true.mp built statement member)

theorem staysWhole_mixed : ∀ api ∈ mixedApis, api.sourceCode ≠ "" →
    (OutputTarget.call { functions := "f.ts" } mixedOptions api).StaysWhole []
      (OutputTarget.apiPath { functions := "f.ts" } api) := by
  have configured : ∀ setting ∈ mixedOptions.imports, ∀ text, setting.toText = .ok text →
      ∀ line ∈ statementLines text, Unmarked line := by
    intro setting listed text spelled line inside
    rw [List.mem_singleton.mp listed] at spelled
    cases spelled
    exact (cleanStatements_of_check (by decide +kernel) line inside).unmarked
  intro api member _
  simp only [mixedApis, List.mem_cons, List.not_mem_nil, or_false] at member
  rcases member with rfl | rfl
  · exact staysWhole_of_check (by decide +kernel) configured (by decide +kernel)
  · exact staysWhole_of_check (by decide +kernel) configured (by decide +kernel)

theorem writeAll_mixed : Yields (writeAll mixedApis [] { functions := "f.ts" } mixedOptions) {}
    { functions := 2, modelFiles := ["model/U.ts"] } mixedWorkspace :=
  yields_of_check (by decide +kernel)

theorem writes_again_mixed :
    ∃ again, Yields (writeAll mixedApis [] { functions := "f.ts" } mixedOptions) mixedWorkspace
        { functions := 0, modelFiles := ["model/U.ts"] } again ∧
      ∀ place, again.disk.file? place = mixedWorkspace.disk.file? place :=
  FreshRun.writes_again freshRun_mixed staysWhole_mixed writeAll_mixed

theorem freshRun_of_plain {target : OutputTarget} {apis : List Api}
    (plain : ∀ api ∈ apis, api.queryModel = none ∧ api.found [] = .ok [])
    (marked : ∀ api ∈ apis, containsText api.mark api.sourceCode = true ∧
      statementLines api.sourceCode = [])
    (apart : ∀ api ∈ apis, ∀ other ∈ apis,
      Path.absolute [] (indexPath (target.modelDir other)) ≠
        Path.absolute [] (target.apiPath api)) : FreshRun [] target {} apis {} where
  functions := fun api member _ =>
    ⟨(marked api member).1, (marked api member).2, List.forall_mem_nil _⟩
  models := by
    intro api member models found model listed
    rw [(plain api member).2] at found
    cases found
    cases listed
  apart := by
    intro api member _ other member' path listed
    have index : path = indexPath (target.modelDir other) := by
      unfold Api.interfacePaths at listed
      rw [(plain other member').1, (plain other member').2] at listed
      exact List.mem_singleton.mp listed
    rw [index]
    exact apart api member other member'
  absent := fun _ _ _ => rfl
  unlisted := fun _ _ => rfl

/-- A mark with a carriage return, which is read as a line feed. -/
def returnApis : List Api := [plainApi "/a\rb" "@UNOAPI[get:/a\rb]"]

def functionWorkspace (text : String) (count : Nat) : Workspace :=
  { disk := { files := [(["f.ts"], .text text)] }, reported := List.replicate count "f.ts" }

/-- The name of a type that is the mark of another function, until the names are listed again. -/
def namedMarkApis : List Api :=
  [{ plainApi "/a" "@UNOAPI[get:/a]" with typeNames := ["@UNOAPI[get:/x,y]"] },
    plainApi "/x,y" "@UNOAPI[get:/x,y]", plainApi "/b" "@UNOAPI[get:/b]"]

def namedMarkText : String :=
  "import type \x7b @UNOAPI[get:/x, y] \x7d from './model';\n\n@UNOAPI[get:/a]\n\n@UNOAPI[get:/b]\n"

/-- A path that breaks into a statement which goes on in the function. -/
def brokenPathApis : List Api :=
  [{ plainApi "/a,b" "@UNOAPI[get:/a,b] \x7d from 'q'" with typeNames := ["U"] },
    plainApi "/c" "@UNOAPI[get:/c]"]

def brokenPathText : String :=
  "import type \x7b U \x7d from './m';\nimport \x7b '; @UNOAPI[get:/a, b] \x7d from 'q';\n\n" ++
    "@UNOAPI[get:/c]\n"

def brokenPathAgain : String :=
  "import type \x7b U \x7d from './m';\nimport \x7b '; @UNOAPI[get:/a, b] \x7d from 'q';\n" ++
    "import type \x7b U \x7d from './m'\nimport \x7b';\n\n" ++
    "@UNOAPI[get:/c]\n\n@UNOAPI[get:/a,b] \x7d from 'q'\n"

/-- Marks that are not found again make a second run add a function: one is read with another break,
one was found in an import, and one went into an import. -/
theorem functions_added_again :
    (FreshRun [] { functions := "f.ts" } {} returnApis {} ∧
      Yields (writeAll returnApis [] { functions := "f.ts" } {}) {} { functions := 1 }
        (functionWorkspace "@UNOAPI[get:/a\rb]\n" 1) ∧
      Yields (writeAll returnApis [] { functions := "f.ts" } {})
        (functionWorkspace "@UNOAPI[get:/a\rb]\n" 1) { functions := 1 }
        (functionWorkspace "@UNOAPI[get:/a\nb]\n\n@UNOAPI[get:/a\rb]\n" 2)) ∧
    (FreshRun [] { functions := "f.ts" } {} namedMarkApis {} ∧
      Yields (writeAll namedMarkApis [] { functions := "f.ts" } {}) {} { functions := 2 }
        (functionWorkspace namedMarkText 2) ∧
      Yields (writeAll namedMarkApis [] { functions := "f.ts" } {})
        (functionWorkspace namedMarkText 2) { functions := 1 }
        (functionWorkspace (namedMarkText ++ "\n@UNOAPI[get:/x,y]\n") 3)) ∧
    FreshRun [] { functions := "f.ts", models := some "m'\nimport \x7b" } {} brokenPathApis {} ∧
      Yields (writeAll brokenPathApis []
          { functions := "f.ts", models := some "m'\nimport \x7b" } {}) {} { functions := 2 }
        (functionWorkspace brokenPathText 2) ∧
      Yields (writeAll brokenPathApis []
          { functions := "f.ts", models := some "m'\nimport \x7b" } {})
        (functionWorkspace brokenPathText 2) { functions := 1 }
        (functionWorkspace brokenPathAgain 3) := by
  refine ⟨⟨?_, ?_, ?_⟩, ⟨?_, ?_, ?_⟩, ?_, ?_, ?_⟩
  · refine freshRun_of_plain ?_ (by decide +kernel) (by decide +kernel)
    intro api member
    rw [List.mem_singleton.mp member]
    exact ⟨rfl, rfl⟩
  · exact yields_of_check (by decide +kernel)
  · exact yields_of_check (by decide +kernel)
  · refine freshRun_of_plain ?_ (by decide +kernel) (by decide +kernel)
    intro api member
    simp only [namedMarkApis, List.mem_cons, List.not_mem_nil, or_false] at member
    rcases member with rfl | rfl | rfl <;> exact ⟨rfl, rfl⟩
  · exact yields_of_check (by decide +kernel)
  · exact yields_of_check (by decide +kernel)
  · refine freshRun_of_plain ?_ (by decide +kernel) (by decide +kernel)
    intro api member
    simp only [brokenPathApis, List.mem_cons, List.not_mem_nil, or_false] at member
    rcases member with rfl | rfl <;> exact ⟨rfl, rfl⟩
  · exact yields_of_check (by decide +kernel)
  · exact yields_of_check (by decide +kernel)

end Instances

end TypedClient

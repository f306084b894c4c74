import TypedClient.Proofs.Interface.Index
import TypedClient.Proofs.Workspace

namespace TypedClient

inductive Edit
  | put (path text : String)
  /-- An index with more models; it begins with those that it lists already. -/
  | list (path : String) (asGlobal : Bool) (added : List Import)

namespace Edit

def path : Edit → String
  | put path _ => path
  | list path _ _ => path

def place (directory : Place) (edit : Edit) : Place := Path.absolute directory edit.path

/-- The text that an edit leaves, given what stands at its place. -/
def text (held : Option Content) : Edit → String
  | put _ text => text
  | list _ asGlobal added => indexText asGlobal (listedModels (shownText held) ++ added)

def fill (held : Option Content) (edit : Edit) : Option Content := some (.text (edit.text held))

def apply (directory : Place) (files : Place → Option Content) (edit : Edit) :
    Place → Option Content :=
  Function.update files (edit.place directory) (edit.fill (files (edit.place directory)))

def replay (directory : Place) (files : Place → Option Content) (edits : List Edit) :
    Place → Option Content :=
  edits.foldl (apply directory) files

def touching (directory place : Place) (edits : List Edit) : List Edit :=
  edits.filter (·.place directory == place)

section Replay

variable {directory place : Place} {files : Place → Option Content} {front back edits : List Edit}

theorem replay_append (directory : Place) (files : Place → Option Content)
    (front back : List Edit) :
    replay directory files (front ++ back) = replay directory (replay directory files front) back :=
  List.foldl_append

theorem replay_at (directory : Place) (files : Place → Option Content) (edits : List Edit)
    (place : Place) :
    replay directory files edits place =
      (touching directory place edits).foldl fill (files place) := by
  unfold replay touching
  induction edits generalizing files with
  | nil => rfl
  | cons edit rest ih =>
      rw [List.foldl_cons, ih]
      by_cases own : edit.place directory = place
      · rw [List.filter_cons_of_pos (by simpa using own), List.foldl_cons, apply, own,
          Function.update_self]
      · rw [List.filter_cons_of_neg (by simpa using own), apply,
          Function.update_of_ne (Ne.symm own)]

theorem mem_touching {edit : Edit} :
    edit ∈ touching directory place edits ↔ edit ∈ edits ∧ edit.place directory = place := by
  rw [touching, List.mem_filter, beq_iff_eq]

theorem touching_append (front back : List Edit) :
    touching directory place (front ++ back) =
      touching directory place front ++ touching directory place back :=
  List.filter_append ..

theorem touching_eq_nil (apart : ∀ edit ∈ edits, edit.place directory ≠ place) :
    touching directory place edits = [] := by
  apply List.filter_eq_nil_iff.mpr
  intro edit member
  simpa using apart edit member

/-- Nothing changes where no edit goes. -/
theorem replay_elsewhere (apart : ∀ edit ∈ edits, edit.place directory ≠ place) :
    replay directory files edits place = files place := by
  rw [replay_at, touching_eq_nil apart]
  rfl

theorem foldl_fill_put {edits : List Edit} {path text : String} (held : Option Content) :
    (edits ++ [put path text]).foldl fill held = some (.text text) := by
  rw [List.foldl_append]
  rfl

theorem foldl_fill_text {held : Option Content} (readable : ∀ bytes, held ≠ some (.binary bytes))
    (edits : List Edit) : ∀ bytes, edits.foldl fill held ≠ some (.binary bytes) := by
  induction edits generalizing held with
  | nil => exact readable
  | cons edit rest ih =>
      rw [List.foldl_cons]
      apply ih
      intro bytes same
      cases same

end Replay

end Edit

structure Performed (edits : List Edit) (before after : Workspace) : Prop where
  directory : after.directory = before.directory
  files : after.disk.file? = Edit.replay before.directory before.disk.file? edits
  grows : before.disk.Grows after.disk
  ready : ∀ edit ∈ edits, after.disk.Ready before.directory edit.path
  housed : ∀ place, before.disk.Housed place → after.disk.Housed place

namespace Performed

variable {edits front back : List Edit} {before between after : Workspace}

theorem nothing (directory : after.directory = before.directory)
    (disk : after.disk = before.disk) : Performed [] before after where
  directory := directory
  files := by
    rw [disk]
    rfl
  grows := by
    rw [disk]
    exact .refl _
  ready := List.forall_mem_nil _
  housed := by
    rw [disk]
    exact fun _ housed => housed

theorem append (first : Performed front before between) (second : Performed back between after) :
    Performed (front ++ back) before after where
  directory := second.directory.trans first.directory
  files := by rw [second.files, first.directory, first.files, Edit.replay_append]
  grows := first.grows.trans second.grows
  ready := by
    intro edit member
    rcases List.mem_append.mp member with early | late
    · exact (first.ready edit early).grows second.grows
    · rw [← first.directory]
      exact second.ready edit late
  housed := fun place housed => second.housed place (first.housed place housed)

theorem of_saved {edit : Edit} {text : String} (saved : Work.Saved edit.path text before after)
    (own : text = edit.text (before.disk.file? (edit.place before.directory))) :
    Performed [edit] before after where
  directory := saved.directory
  files := by
    rw [saved.files, own]
    rfl
  grows := saved.grows
  ready := fun _ member => List.mem_singleton.mp member ▸ saved.ready
  housed := by
    intro place housed stands directory member
    by_cases same : place = Path.absolute before.directory edit.path
    · subst same
      exact saved.ready.above directory member
    · rw [saved.files, Function.update_of_ne same] at stands
      exact saved.grows.directories directory (housed stands directory member)

end Performed

section ModelFiles

variable {models : List Model} {modelDir : String} {asGlobal : Bool} {files : List String}
  {before after : Workspace}

def modelListings (directory : Place) (models : List Model) (modelDir : String) :
    Except Error (List Import) :=
  models.mapM fun model => do
    let path ← Path.importSpecifier directory modelDir (modelPath modelDir model)
    return { path, defaultName := some model.fileName }

def indexPath (modelDir : String) : String := Path.join modelDir "index.ts"

def modelEdits (models : List Model) (modelDir : String) (asGlobal : Bool) (added : List Import) :
    List Edit :=
  models.map (fun model => .put (modelPath modelDir model) model.sourceCode) ++
    [.list (indexPath modelDir) asGlobal added]

theorem performed_of_saves (ran : Yields (models.forM fun model =>
      Work.saveFile (modelPath modelDir model) model.sourceCode) before () after) :
    Performed (models.map fun model => .put (modelPath modelDir model) model.sourceCode)
      before after := by
  induction models generalizing before with
  | nil =>
      rw [(yields_forM_nil _ _ _ _).mp ran]
      exact .nothing rfl rfl
  | cons model rest ih =>
      rcases (yields_forM_cons _ _ _ _ _ _).mp ran with ⟨between, saves, later⟩
      have first : Performed [.put (modelPath modelDir model) model.sourceCode] before between :=
        .of_saved (Work.saved_of_yields saves) rfl
      exact first.append (ih later)

theorem yields_specifier {directory : Place} {model : Model} {statement : Import}
    {before after : Workspace} :
    Yields (do
        let path ← liftExcept (Path.importSpecifier directory modelDir (modelPath modelDir model))
        return { path, defaultName := some model.fileName : Import } : Work Import)
      before statement after ↔
      (do
        let path ← Path.importSpecifier directory modelDir (modelPath modelDir model)
        return { path, defaultName := some model.fileName : Import }) = .ok statement ∧
          after = before := by
  rw [yields_bind, bind_eq_ok]
  simp only [yields_liftExcept, yields_pure, pure_eq_ok]
  constructor
  · rintro ⟨path, between, ⟨made, rfl⟩, rfl, rfl⟩
    exact ⟨⟨path, made, rfl⟩, rfl⟩
  · rintro ⟨⟨path, made, rfl⟩, rfl⟩
    exact ⟨path, _, ⟨made, rfl⟩, rfl, rfl⟩

theorem performed_of_writeModelFiles
    (ran : Yields (writeModelFiles models modelDir asGlobal) before files after)
    (housed : before.disk.Housed (Path.absolute before.directory (indexPath modelDir))) :
    files = models.map (modelPath modelDir) ∧
      ∃ added, modelListings before.directory models modelDir = .ok added ∧
        Performed (modelEdits models modelDir asGlobal added) before after := by
  unfold writeModelFiles at ran
  rcases (yields_bind _ _ _ _ _).mp ran with ⟨⟨⟩, between, saves, indexed⟩
  have first := performed_of_saves saves
  rcases (yields_bind _ _ _ _ _).mp indexed with ⟨content, _, reads, listed⟩
  rcases Work.yields_fileText_iff.mp reads with ⟨rfl, -⟩
  rcases (yields_bind _ _ _ _ _).mp listed with ⟨workspace, _, got, made⟩
  rcases (yields_get _ _ _).mp got with ⟨rfl, rfl⟩
  rcases (yields_bind _ _ _ _ _).mp made with ⟨added, _, specified, saved⟩
  rcases (yields_mapM_of_pure (fun _ _ _ => yields_specifier) _ _ _).mp specified with
    ⟨additions, rfl⟩
  rcases (yields_bind _ _ _ _ _).mp saved with ⟨⟨⟩, finished, ends, returns⟩
  rcases (yields_pure _ _ _ _).mp returns with ⟨rfl, rfl⟩
  rw [first.directory] at additions
  refine ⟨rfl, added, additions, first.append (.of_saved (Work.saved_of_yields ends) ?_)⟩
  -- What is read of the index is what stands at its place.
  have shown := Work.eq_shownText_of_saved reads ends
    (first.directory.symm ▸ first.housed _ housed)
  rw [shown]
  rfl

theorem exists_saves (ready : ∀ model ∈ models,
      before.disk.Ready before.directory (modelPath modelDir model)) :
    ∃ after, Yields (models.forM fun model =>
      Work.saveFile (modelPath modelDir model) model.sourceCode) before () after := by
  induction models generalizing before with
  | nil => exact ⟨before, (yields_forM_nil _ _ _ _).mpr rfl⟩
  | cons model rest ih =>
      have saves := Work.yields_saveFile_of_ready (ready model (by simp)) model.sourceCode
      have saved := Work.saved_of_yields saves
      have ready' := fun other member =>
        (ready other (List.mem_cons_of_mem model member)).grows saved.grows
      rw [← saved.directory] at ready'
      rcases ih ready' with ⟨after, later⟩
      exact ⟨after, (yields_forM_cons _ _ _ _ _ _).mpr ⟨_, saves, later⟩⟩

/-- Models are written again where they have been written once. -/
theorem exists_writeModelFiles {added : List Import}
    (made : modelListings before.directory models modelDir = .ok added)
    (ready : ∀ edit ∈ modelEdits models modelDir asGlobal added,
      before.disk.Ready before.directory edit.path)
    (readable : ∀ bytes, before.disk.file?
      (Path.absolute before.directory (indexPath modelDir)) ≠ some (.binary bytes)) :
    ∃ after, Yields (writeModelFiles models modelDir asGlobal) before
      (models.map (modelPath modelDir)) after := by
  have own : ∀ model ∈ models, before.disk.Ready before.directory (modelPath modelDir model) :=
    fun model member => ready (.put (modelPath modelDir model) model.sourceCode)
      (List.mem_append_left _ (List.mem_map.mpr ⟨model, member, rfl⟩))
  rcases exists_saves own with ⟨between, saves⟩
  have first := performed_of_saves saves
  have index : between.disk.Ready between.directory (indexPath modelDir) := by
    rw [first.directory]
    exact (ready (.list (indexPath modelDir) asGlobal added) (by simp [modelEdits])).grows
      first.grows
  have stands : ∃ text, between.disk.file?
      (Path.absolute between.directory (indexPath modelDir)) = some (.text text) := by
    have held := index.held
    have texts : ∀ bytes, between.disk.file?
        (Path.absolute between.directory (indexPath modelDir)) ≠ some (.binary bytes) := by
      rw [first.directory, first.files, Edit.replay_at]
      exact Edit.foldl_fill_text readable _
    cases shape : between.disk.file? (Path.absolute between.directory (indexPath modelDir)) with
    | none =>
        rw [shape] at held
        cases held
    | some content =>
        cases content with
        | text text => exact ⟨text, rfl⟩
        | binary bytes => exact absurd shape (texts bytes)
  rcases stands with ⟨text, stands⟩
  have reads := Work.yields_fileText_of_ready index stands
  have saved := Work.yields_saveFile_of_ready index
    (indexText asGlobal (listedModels (reread text) ++ added))
  rw [← first.directory] at made
  have lists := (yields_mapM_of_pure (fun _ _ _ => yields_specifier) models added between).mpr
    ⟨made, rfl⟩
  have looks : Yields (getThe Workspace) between between between :=
    (yields_get _ _ _).mpr ⟨rfl, rfl⟩
  exact ⟨_, saves.bind (reads.bind (looks.bind (lists.bind (saved.bind
    ((yields_pure _ _ _ _).mpr ⟨rfl, rfl⟩)))))⟩

end ModelFiles

section Named

variable {name : String} {models : List Model} {modelDir : String}

theorem isStep_fileName (fit : IsModelName name) : Path.IsStep (name ++ ".ts") :=
  Path.isStep_source fun slash => absurd (fit.identifier.2 '/' slash) (by decide)

theorem isStep_index : Path.IsStep "index.ts" := Path.isStep_of_check (by decide)

theorem place_indexPath (directory : Place) (modelDir : String) :
    Path.absolute directory (indexPath modelDir) =
      Path.absolute directory modelDir ++ ["index.ts"] :=
  Path.absolute_join isStep_index directory modelDir

theorem place_modelPath {model : Model} (fit : IsModelName model.fileName) (directory : Place) :
    Path.absolute directory (modelPath modelDir model) =
      Path.absolute directory modelDir ++ [model.fileName ++ ".ts"] :=
  Path.absolute_join (isStep_fileName fit) directory modelDir

/-- No model is written where an index is. -/
theorem place_modelPath_ne {model : Model} (fit : IsModelName model.fileName) (directory : Place)
    (modelDir' : String) :
    Path.absolute directory (modelPath modelDir model) ≠
      Path.absolute directory (indexPath modelDir') := by
  rw [place_modelPath fit, place_indexPath]
  intro same
  have last : model.fileName ++ ".ts" = "index" ++ ".ts" :=
    List.singleton_inj.mp (List.append_inj_right' same rfl)
  exact fit.apart ((String.append_left_inj _).mp last)

theorem modelListings_of_named (named : ∀ model ∈ models, IsModelName model.fileName)
    (directory : Place) :
    modelListings directory models modelDir = .ok ((models.map Model.fileName).map listing) := by
  rw [modelListings, mapM_eq_ok]
  induction models with
  | nil => exact .nil
  | cons model rest ih =>
      have own := named model (by simp)
      have plain : model.fileName.toList.head? ≠ some '.' := by
        intro dotted
        exact absurd (own.identifier.2 '.' (List.mem_of_mem_head? dotted)) (by decide)
      refine .cons ?_ (ih fun other member => named other (by simp [member]))
      rw [modelPath, Path.importSpecifier_join (isStep_fileName own) plain]
      rfl

structure Batch where
  path : String
  asGlobal : Bool
  names : List String

def Batch.edit (batch : Batch) : Edit := .list batch.path batch.asGlobal (batch.names.map listing)

/-- An index that is written again and again lists every model once, in the order of the first
batch that brought it. -/
theorem foldl_batches {batches : List Batch} {last : Batch} {known : List String}
    {held : Option Content} (ends : batches.getLast? = some last)
    (fit : ∀ name ∈ known ++ batches.flatMap Batch.names, IsModelName name)
    (lists : listedModels (shownText held) = known.eraseDups.map listing) :
    (batches.map Batch.edit).foldl Edit.fill held =
      some (.text (indexText last.asGlobal
        ((known ++ batches.flatMap Batch.names).map listing))) := by
  induction batches generalizing known held with
  | nil => cases ends
  | cons batch rest ih =>
      rw [List.flatMap_cons, ← List.append_assoc] at fit
      have own : ∀ name ∈ known ++ batch.names, IsModelName name :=
        fun name member => fit name (List.mem_append_left _ member)
      have text : Edit.fill held batch.edit =
          some (.text (indexText batch.asGlobal ((known ++ batch.names).map listing))) := by
        rw [Batch.edit, Edit.fill, Edit.text, lists,
          indexText_append fun name member => (own name member).ne_empty]
      have shown : listedModels (shownText (Edit.fill held batch.edit)) =
          (known ++ batch.names).eraseDups.map listing := by
        rw [text]
        exact listedModels_indexText own batch.asGlobal
      rw [List.map_cons, List.foldl_cons, List.flatMap_cons, ← List.append_assoc]
      cases rest with
      | nil =>
          cases ends
          rw [text]
          simp
      | cons next others => exact ih ends fit shown

/-- An edit that may be made again: a text, or an index that starts from nothing. -/
inductive Repeatable (held : Option Content) : Edit → Prop
  | put (path text : String) : Repeatable held (.put path text)
  | list (batch : Batch) (fit : ∀ name ∈ batch.names, IsModelName name) (absent : held = none) :
      Repeatable held batch.edit

theorem exists_batches {held : Option Content} {edits : List Edit}
    (fit : ∀ edit ∈ edits, Repeatable held edit)
    (lists : ∀ edit ∈ edits, ∀ path text, edit ≠ .put path text) :
    ∃ batches : List Batch, edits = batches.map Batch.edit ∧
      (∀ name ∈ batches.flatMap Batch.names, IsModelName name) ∧ (batches ≠ [] → held = none) := by
  induction edits with
  | nil => exact ⟨[], rfl, by simp, by simp⟩
  | cons edit rest ih =>
      rcases ih (fun other member => fit other (by simp [member]))
        (fun other member => lists other (by simp [member])) with ⟨batches, rfl, named, -⟩
      cases fit edit (by simp) with
      | put path text => exact absurd rfl (lists _ (by simp) path text)
      | list batch named' absent =>
          refine ⟨batch :: batches, rfl, ?_, fun _ => absent⟩
          intro name member
          rcases List.mem_append.mp (List.flatMap_cons ▸ member) with own | later
          · exact named' name own
          · exact named name later

/-- Indexes that are written once more list nothing new. -/
theorem foldl_batches_twice {batches : List Batch} {last : Batch}
    (ends : batches.getLast? = some last)
    (named : ∀ name ∈ batches.flatMap Batch.names, IsModelName name) :
    (batches.map Batch.edit).foldl Edit.fill ((batches.map Batch.edit).foldl Edit.fill none) =
      (batches.map Batch.edit).foldl Edit.fill none := by
  have named' : ∀ name ∈ ([] : List String) ++ batches.flatMap Batch.names,
      IsModelName name := named
  have twice : ∀ name ∈ batches.flatMap Batch.names ++ batches.flatMap Batch.names,
      IsModelName name := by
    intro name member
    rcases List.mem_append.mp member with own | own <;> exact named name own
  have start : listedModels (shownText none) = ([] : List String).eraseDups.map listing :=
    listedModels_empty
  have known : listedModels (shownText (some (.text (indexText last.asGlobal
      ((batches.flatMap Batch.names).map listing))))) =
        (batches.flatMap Batch.names).eraseDups.map listing :=
    listedModels_indexText named last.asGlobal
  have first := foldl_batches ends named' start
  have second := foldl_batches ends twice known
  rw [List.nil_append] at first
  rw [first, second, ← indexText_eraseDups fun name member => (twice name member).ne_empty,
    eraseDups_append_of_subset (List.Subset.refl _),
    indexText_eraseDups fun name member => (named name member).ne_empty]

theorem foldl_fill_twice {held : Option Content} {edits : List Edit}
    (fit : ∀ edit ∈ edits, Repeatable held edit) :
    edits.foldl Edit.fill (edits.foldl Edit.fill held) = edits.foldl Edit.fill held := by
  by_cases puts : ∃ edit ∈ edits, ∃ path text, edit = .put path text
  · rcases puts with ⟨_, member, path, text, rfl⟩
    rcases List.append_of_mem member with ⟨front, back, rfl⟩
    -- Whatever the front makes of the place, the text replaces it.
    have behind : ∀ start : Option Content,
        (front ++ .put path text :: back).foldl Edit.fill start =
        back.foldl Edit.fill (some (.text text)) := by
      intro start
      rw [List.foldl_append, List.foldl_cons]
      rfl
    rw [behind, behind]
  · have lists : ∀ edit ∈ edits, ∀ path text, edit ≠ .put path text :=
      fun edit member path text same => puts ⟨edit, member, path, text, same⟩
    rcases exists_batches fit lists with ⟨batches, rfl, named, absent⟩
    cases ends : batches.getLast? with
    | none =>
        rw [List.getLast?_eq_none_iff.mp ends]
        rfl
    | some last =>
        have given : batches ≠ [] := by
          rintro rfl
          cases ends
        rw [absent given]
        exact foldl_batches_twice ends named

end Named

end TypedClient

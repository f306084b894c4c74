import TypedClient.Generator
import TypedClient.Proofs.Document.Saved

/-!
The cache of a generator. A document that has been loaded from its source is read back from the
cache exactly if all its keys are texts, which those of JSON always are; then a generator that
starts from the cache does what the one that loaded the document does.
-/

namespace TypedClient

/-- A program gives a regular document. -/
def DocumentSource.Regular : DocumentSource → Prop
  | .program document => document.Regular
  | .place _ => True

/-- The source is an answer of the web or a file that is read as JSON text. -/
def DocumentSource.IsJson : DocumentSource → Prop
  | .place (.text name) => isWebAddress name = true ∨ isYamlPath name = false
  | _ => False

theorem yields_updateDocument {settings : Settings} {document : Value} {before after : Workspace} :
    Yields (updateDocument settings) before document after ↔
      ∃ source cache between, settings.sourceInPlace? = .ok (some source) ∧
        settings.cachePath = .ok cache ∧ Yields (loadDocument source) before document between ∧
          Yields (saveDocument document cache) between () after := by
  unfold updateDocument
  rw [yields_bind]
  constructor
  · rintro ⟨source, _, asked, loads⟩
    obtain ⟨chosen, rfl⟩ := (yields_liftExcept _ _ _ _).mp asked
    split at loads
    · obtain ⟨_, _, -, thrown⟩ := (yields_bind _ _ _ _ _).mp loads
      exact absurd thrown (yields_throw _ _ _ _)
    · obtain ⟨own, _, loaded, caches⟩ := (yields_bind _ _ _ _ _).mp loads
      obtain ⟨cache, _, placed, saves⟩ := (yields_bind _ _ _ _ _).mp caches
      obtain ⟨cached, rfl⟩ := (yields_liftExcept _ _ _ _).mp placed
      obtain ⟨_, _, saved, returned⟩ := (yields_bind _ _ _ _ _).mp saves
      obtain ⟨rfl, rfl⟩ := (yields_pure _ _ _ _).mp returned
      exact ⟨_, cache, _, chosen, cached, loaded, saved⟩
  · rintro ⟨source, cache, between, chosen, cached, loaded, saved⟩
    refine ⟨_, _, (yields_liftExcept _ _ _ _).mpr ⟨chosen, rfl⟩, ?_⟩
    have placed : Yields (liftExcept settings.cachePath) between cache between :=
      (yields_liftExcept _ _ _ _).mpr ⟨cached, rfl⟩
    exact loaded.bind (placed.bind (saved.bind ((yields_pure _ _ _ _).mpr ⟨rfl, rfl⟩)))

theorem regular_sourceInPlace? {settings : Settings} {source : DocumentSource}
    (regular : settings.source.Regular) (chosen : settings.sourceInPlace? = .ok (some source)) :
    source.Regular := by
  unfold Settings.sourceInPlace? at chosen
  split at chosen
  · rename_i document given
    cases chosen
    rwa [given] at regular
  · split at chosen
    · cases chosen
    · split at chosen
      · split at chosen
        · cases chosen
          exact regular
        · cases chosen
          trivial
      · cases chosen

section Source

variable {source : DocumentSource} {document : Value} {before after : Workspace}

theorem regular_of_source (regular : source.Regular)
    (loaded : Yields (loadDocument source) before document after) : document.Regular := by
  cases source with
  | program own =>
      obtain ⟨rfl, -⟩ := (yields_pure _ _ _ _).mp loaded
      exact regular
  | place value => exact (regular_of_place loaded).1

theorem keyed_of_json (json : source.IsJson)
    (loaded : Yields (loadDocument source) before document after) :
    document.TextKeyed ∧ document.isObject = true := by
  unfold DocumentSource.IsJson at json
  split at json
  · obtain ⟨-, object, spelled⟩ := regular_of_place loaded
    exact ⟨(spelled _ rfl json).textKeyed, object⟩
  · exact json.elim

end Source

namespace Generator

variable {generator later : Generator} {document : Value} {path : String} {before after : Workspace}

theorem run_ofWork_bind {α β : Type} (generator : Generator) (action : Work α)
    (next : α → Generating β) (before : Workspace) :
    (ExceptT.run (Generating.ofWork action >>= next)).run (generator, before) =
      match (ExceptT.run action).run before with
      | (.ok value, between) => (ExceptT.run (next value)).run (generator, between)
      | (.error failure, between) => (.error failure, generator, between) := by
  have own : (ExceptT.run (Generating.ofWork action)).run (generator, before) =
      (((ExceptT.run action).run before).1, generator, ((ExceptT.run action).run before).2) := rfl
  rw [run_bind, own]
  rcases (ExceptT.run action).run before with ⟨failure | value, between⟩ <;> rfl

theorem run_renewDocument (generator : Generator) (refresh : Bool) (before : Workspace) :
    (ExceptT.run (renewDocument refresh)).run (generator, before) =
      match (ExceptT.run (generator.cacheInUse refresh >>= generator.documentFrom)).run before with
      | (.ok document, after) => (.ok document, { generator with document := some document }, after)
      | (.error failure, after) => (.error failure, generator, after) := by
  refine (run_ofWork_bind generator (generator.cacheInUse refresh >>= generator.documentFrom)
    _ before).trans ?_
  rcases (ExceptT.run (generator.cacheInUse refresh >>= generator.documentFrom)).run before
    with ⟨failure | document, after⟩ <;> rfl

theorem run_keepDocument (generator : Generator) (refresh : Bool) (before : Workspace) :
    (ExceptT.run (keepDocument refresh)).run (generator, before) =
      match generator.document, refresh with
      | some document, false => (.ok document, generator, before)
      | _, _ => (ExceptT.run (renewDocument refresh)).run (generator, before) := by
  rcases generator with ⟨settings, _ | document⟩ <;> cases refresh <;> rfl

theorem yields_renewDocument {refresh : Bool} :
    Yields (renewDocument refresh) (generator, before) document (later, after) ↔
      later = { generator with document := some document } ∧
        Yields (generator.cacheInUse refresh >>= generator.documentFrom) before document after := by
  unfold Yields
  rw [run_renewDocument]
  rcases (ExceptT.run (generator.cacheInUse refresh >>= generator.documentFrom)).run before
    with ⟨failure | found, left⟩
  · constructor
    · intro ran
      cases ran
    · rintro ⟨-, ran⟩
      cases ran
  · constructor
    · intro ran
      cases ran
      exact ⟨rfl, rfl⟩
    · rintro ⟨rfl, ran⟩
      cases ran
      rfl

theorem yields_load {refresh : Bool} :
    Yields (generator.load refresh) before (document, later) after ↔
      Yields (keepDocument refresh) (generator, before) document (later, after) := by
  have ran : (ExceptT.run (generator.load refresh)).run before =
      match (ExceptT.run (keepDocument refresh)).run (generator, before) with
      | (result, left, workspace) => (result.map fun value => (value, left), workspace) := rfl
  unfold Yields
  rw [ran]
  rcases (ExceptT.run (keepDocument refresh)).run (generator, before)
    with ⟨failure | found, left, workspace⟩
  · constructor <;> intro same <;> cases same
  · constructor
    · intro same
      cases same
      rfl
    · intro same
      cases same
      rfl

theorem yields_load_refresh : Yields (generator.load true) before (document, later) after ↔
    later = { generator with document := some document } ∧
      Yields (updateDocument generator.settings) before document after := by
  have renewed : (ExceptT.run (keepDocument true)).run (generator, before) =
      (ExceptT.run (renewDocument true)).run (generator, before) := by
    rw [run_keepDocument]
    split
    · cases ‹true = false›
    · rfl
  rw [yields_load, Yields, renewed]
  exact yields_renewDocument

/-- What is in the cache is loaded by a generator that has no document. -/
theorem yields_load_of_cache {settings : Settings} (cached : settings.cachePath = .ok path)
    (read : Yields (readDocument path) before document before) :
    Yields (load { settings } false) before (document, { settings, document := some document })
      before := by
  obtain ⟨-, place, content, held, -⟩ := yields_readDocument.mp read
  have there : Yields (Work.isFile path) before true before := by
    refine (yields_bind _ _ _ _ _).mpr ⟨_, _, Work.yields_fileAt?.mpr ⟨rfl, rfl⟩, ?_⟩
    rw [held]
    exact (yields_pure _ _ _ _).mpr ⟨rfl, rfl⟩
  have used : Yields (cacheInUse { settings } false) before (some path) before := by
    refine (yields_bind _ _ _ _ _).mpr
      ⟨path, before, (yields_liftExcept _ _ _ _).mpr ⟨cached, rfl⟩, ?_⟩
    exact there.bind ((yields_pure _ _ _ _).mpr ⟨rfl, rfl⟩)
  refine yields_load.mpr ?_
  exact yields_renewDocument.mpr ⟨rfl, used.bind read⟩

theorem yields_load_of_document (settings : Settings) (document : Value) (before : Workspace) :
    Yields (load { settings, document := some document } false) before
      (document, { settings, document := some document }) before :=
  (yields_pure _ _ _ _).mpr ⟨rfl, rfl⟩

def SameIn {α : Type} (workspace : Workspace) (first second : Work α) : Prop :=
  (ExceptT.run first).run workspace = (ExceptT.run second).run workspace

theorem SameIn.bind {α β : Type} {workspace : Workspace} {first second : Work α}
    (same : SameIn workspace first second) (next : α → Work β) :
    SameIn workspace (first >>= next) (second >>= next) := by
  unfold SameIn at *
  rw [run_bind, run_bind, same]

def Still {α : Type} (action : Work α) : Prop :=
  ∀ workspace, ((ExceptT.run action).run workspace).2 = workspace

theorem Still.bind {α β : Type} {action : Work α} {next : α → Work β} (still : Still action)
    (later : ∀ value, Still (next value)) : Still (action >>= next) := by
  intro workspace
  have own := still workspace
  rw [run_bind]
  generalize (ExceptT.run action).run workspace = ran at own
  obtain ⟨failure | value, after⟩ := ran
  · exact own
  · exact (later value after).trans own

theorem still_liftExcept {α : Type} (source : Except Error α) :
    Still (liftExcept source : Work α) := by
  intro workspace
  cases source <;> rfl

theorem still_loadHook (entry directory : String) : Still (loadHook entry directory) := by
  have stops (failure : Error) (next : PUnit → Work Hook) : Still (throw failure >>= next) :=
    fun _ => rfl
  unfold loadHook
  refine (still_liftExcept _).bind fun parts => ?_
  split
  dsimp only
  split
  · exact stops _ _
  · split
    · exact stops _ _
    · refine Still.bind (fun _ => rfl) fun held => ?_
      split
      all_goals
        refine Still.bind (fun _ => rfl) fun file => ?_
        split
        · exact fun _ => rfl
        · split
          · exact fun _ => rfl
          · exact fun _ => rfl

theorem still_hook (generator : Generator) : Still generator.hook := by
  unfold hook
  split
  · exact fun _ => rfl
  · exact (still_liftExcept _).bind fun entry => (still_loadHook _ _).bind fun own _ => rfl

theorem SameIn.behind {α β : Type} {workspace : Workspace} {action : Work α} (still : Still action)
    {first second : α → Work β} (same : ∀ value, SameIn workspace (first value) (second value)) :
    SameIn workspace (action >>= first) (action >>= second) := by
  have own := still workspace
  unfold SameIn at *
  rw [run_bind, run_bind]
  generalize (ExceptT.run action).run workspace = ran at own
  obtain ⟨failure | value, left⟩ := ran
  · rfl
  · cases own
    exact same value

/-- Generators that do the same in a workspace. -/
structure Agree (first second : Generator) (workspace : Workspace) : Prop where
  search : ∀ keyword, SameIn workspace (first.search keyword) (second.search keyword)
  select : ∀ urls, SameIn workspace (first.select urls) (second.select urls)
  generate : ∀ operations funcName,
    SameIn workspace (first.generate operations funcName) (second.generate operations funcName)
  run : ∀ urls funcName, SameIn workspace (first.run urls funcName) (second.run urls funcName)

theorem agree_of_load {first second : Generator} {workspace : Workspace}
    (settings : first.settings = second.settings)
    (same : SameIn workspace (first.load false) (second.load false)) :
    Agree first second workspace := by
  have entries : SameIn workspace first.entries second.entries := same.bind _
  have search (keyword : Option String) :
      SameIn workspace (first.search keyword) (second.search keyword) := entries.bind _
  have select (urls : List String) :
      SameIn workspace (first.select urls) (second.select urls) := entries.bind _
  have hook : first.hook = second.hook := by
    unfold hook
    rw [settings]
  refine ⟨search, select, ?_, ?_⟩
  · intro operations funcName
    unfold generate
    rw [hook, settings]
    exact SameIn.behind (still_hook second) fun own => entries.bind _
  · intro urls funcName
    unfold run
    by_cases all : urls.isEmpty
    · rw [if_pos all, if_pos all]
      exact (search none).bind _
    · rw [if_neg all, if_neg all]
      exact (select urls).bind _

/-- A document that has been loaded from its source is read back from the cache exactly if it is an
object with texts as keys, at every depth; a document of JSON is one. Then a generator that takes it
from the cache does what the one that loaded it does. -/
theorem cache_transparent (given : generator.settings.source.Regular)
    (loaded : Yields (generator.load true) before (document, later) after)
    (cached : generator.settings.cachePath = .ok path) (plain : isYamlPath path = false) :
    (Yields (readDocument path) after document after ↔
      document.TextKeyed ∧ document.isObject = true) ∧
    (∀ source, generator.settings.sourceInPlace? = .ok (some source) → source.IsJson →
      document.TextKeyed ∧ document.isObject = true) ∧
    (document.TextKeyed → document.isObject = true →
      Yields (load { settings := generator.settings } false) after (document, later) after ∧
        Agree { settings := generator.settings } later after) := by
  obtain ⟨rfl, updated⟩ := yields_load_refresh.mp loaded
  obtain ⟨source, cache, between, chosen, placed, gave, saved⟩ := yields_updateDocument.mp updated
  obtain rfl : cache = path := Except.ok.inj (placed.symm.trans cached)
  have regular : document.Regular := regular_of_source (regular_sourceInPlace? given chosen) gave
  have reads := yields_readDocument_of_saved plain regular saved
  refine ⟨reads, fun other same json => ?_, fun keyed object => ?_⟩
  · obtain rfl : source = other := Option.some.inj (Except.ok.inj (chosen.symm.trans same))
    exact keyed_of_json json gave
  · have fresh := yields_load_of_cache cached (reads.mpr ⟨keyed, object⟩)
    refine ⟨fresh, agree_of_load rfl ?_⟩
    exact fresh.trans (yields_load_of_document _ _ _).symm

section Versioned

def versionedDocument : Value := .object [(.text "paths", .object []),
  (.text "version", .scalar (.float (.finite false 6755399441055744 (-52))))]

def cachedSettings : Settings where
  source := .place (.text "doc.json")
  cacheFile := .text "cache.json"
  directory := "/"

def versionedWorkspace : Workspace where
  disk := { files := [(["doc.json"], .text (Json.pretty 0 versionedDocument))] }

theorem spellable_versionedDocument : versionedDocument.Spellable := by
  have version : (Binary64.finite false 6755399441055744 (-52)).Canonical :=
    ⟨by decide, by decide, by decide, .inl (by decide)⟩
  have paths : (Value.object []).Spellable := .object .nil (by simp) (by simp)
  refine .object ?_ (by simp) ?_
  · simp [Entries.Distinct, Scalar.same, Scalar.toInt?]
  · exact List.forall_mem_cons.mpr ⟨paths, List.forall_mem_singleton.mpr (.scalar version)⟩

theorem source_cachedSettings :
    cachedSettings.sourceInPlace? = .ok (some (.place (.text "/doc.json"))) := by
  rfl

theorem cachePath_cachedSettings : cachedSettings.cachePath = .ok "/cache.json" := by
  rfl

theorem loaded_versioned : Yields (loadDocument (.place (.text "/doc.json"))) versionedWorkspace
    versionedDocument versionedWorkspace :=
  yields_readDocument.mpr ⟨rfl, ["doc.json"], _, rfl,
    documentOfContent_pretty (by decide) spellable_versionedDocument rfl⟩

def cachedWorkspace : Workspace where
  disk := versionedWorkspace.disk.put ["cache.json"] (.text (Json.pretty 0 versionedDocument))

theorem saved_versioned : Yields (saveDocument versionedDocument "/cache.json")
    versionedWorkspace () cachedWorkspace := by
  have whole : Json.breakOf versionedDocument = none := rfl
  unfold saveDocument
  rw [whole]
  exact Work.yields_saveFile_iff.mpr ⟨versionedWorkspace.disk, ["cache.json"], rfl, rfl, rfl⟩

theorem cache_transparent_versioned : ∃ later after,
    Yields (load { settings := cachedSettings } true) versionedWorkspace (versionedDocument, later)
      after ∧
    Yields (readDocument "/cache.json") after versionedDocument after ∧
    Agree { settings := cachedSettings } later after := by
  have updated := yields_updateDocument.mpr ⟨_, _, _, source_cachedSettings,
    cachePath_cachedSettings, loaded_versioned, saved_versioned⟩
  have loaded := (@yields_load_refresh { settings := cachedSettings } _ _ _ _).mpr ⟨rfl, updated⟩
  obtain ⟨reads, json, same⟩ := @cache_transparent { settings := cachedSettings } _ _ _ _ _ trivial
    loaded cachePath_cachedSettings (by decide)
  have keyed := json _ source_cachedSettings (.inr (by decide))
  exact ⟨_, _, loaded, reads.mpr keyed, (same keyed.1 keyed.2).2⟩

end Versioned

end Generator

end TypedClient

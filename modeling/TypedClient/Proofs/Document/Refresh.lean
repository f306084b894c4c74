import TypedClient.Proofs.Document.Cache

/-!
Calls to load a document, one after the other. Between them the web, the files and the cache may
change at will. A call that fails for the document or its source leaves the cache and the document
at hand as they were; the document of a successful call stays at hand until the next successful
refresh.
-/

namespace TypedClient

def Error.concernsDocument : Error → Bool
  | .document _ _ => true
  | .fetch _ _ _ => true
  | _ => false

def Workspace.Asked (before after : Workspace) : Prop :=
  ∃ asked, after = { before with requests := before.requests ++ asked }

theorem Workspace.Asked.refl (workspace : Workspace) : workspace.Asked workspace :=
  ⟨[], by rw [List.append_nil]⟩

theorem Workspace.Asked.trans {first second third : Workspace} (asked : first.Asked second)
    (asked' : second.Asked third) : first.Asked third := by
  rcases asked with ⟨urls, rfl⟩
  rcases asked' with ⟨others, rfl⟩
  exact ⟨urls ++ others, by rw [List.append_assoc]⟩

section Failing

variable {α β : Type}

/-- A computation that leaves nothing but requests, whatever it comes to. -/
def OnlyAsks (action : Work α) : Prop :=
  ∀ before : Workspace, before.Asked ((ExceptT.run action).run before).2

def Unconcerned (action : Work α) : Prop :=
  ∀ before failure after, (ExceptT.run action).run before = (.error failure, after) →
    failure.concernsDocument = false

/-- A computation that leaves nothing but requests if it fails for the document. -/
def Spares (action : Work α) : Prop :=
  ∀ before failure after, (ExceptT.run action).run before = (.error failure, after) →
    failure.concernsDocument = true → before.Asked after

theorem run_bind_error {action : Work α} {next : α → Work β} {before after : Workspace}
    {failure : Error} (ran : (ExceptT.run (action >>= next)).run before = (.error failure, after)) :
    (ExceptT.run action).run before = (.error failure, after) ∨
      ∃ value between, Yields action before value between ∧
        (ExceptT.run (next value)).run between = (.error failure, after) := by
  rw [run_bind] at ran
  split at ran
  · rename_i value between own
    exact .inr ⟨value, between, own, ran⟩
  · rename_i own between first
    cases ran
    exact .inl first

theorem OnlyAsks.of_still {action : Work α} (still : Generator.Still action) : OnlyAsks action := by
  intro before
  rw [still before]
  exact .refl before

theorem OnlyAsks.bind {action : Work α} {next : α → Work β} (asks : OnlyAsks action)
    (later : ∀ value, OnlyAsks (next value)) : OnlyAsks (action >>= next) := by
  intro before
  have own := asks before
  rw [run_bind]
  generalize (ExceptT.run action).run before = ran at own
  rcases ran with ⟨failure | value, between⟩
  · exact own
  · exact own.trans (later value between)

theorem Unconcerned.of_never {action : Work α}
    (never : ∀ before failure after, (ExceptT.run action).run before ≠ (.error failure, after)) :
    Unconcerned action :=
  fun before failure after ran => absurd ran (never before failure after)

theorem Unconcerned.throw {failure : Error} (other : failure.concernsDocument = false) :
    Unconcerned (throw failure : Work α) := by
  intro before found after ran
  cases ran
  exact other

theorem Unconcerned.bind {action : Work α} {next : α → Work β} (own : Unconcerned action)
    (later : ∀ value, Unconcerned (next value)) : Unconcerned (action >>= next) := by
  intro before failure after ran
  rcases run_bind_error ran with first | ⟨value, between, -, second⟩
  · exact own before failure after first
  · exact later value between failure after second

theorem Spares.of_onlyAsks {action : Work α} (asks : OnlyAsks action) : Spares action := by
  intro before failure after ran _
  have left := asks before
  rwa [ran] at left

theorem Spares.of_unconcerned {action : Work α} (other : Unconcerned action) : Spares action := by
  intro before failure after ran concerned
  rw [other before failure after ran] at concerned
  cases concerned

theorem Spares.bind {action : Work α} {next : α → Work β} (asks : OnlyAsks action)
    (later : ∀ value, Spares (next value)) : Spares (action >>= next) := by
  intro before failure after ran concerned
  rcases run_bind_error ran with first | ⟨value, between, yields, second⟩
  · exact Spares.of_onlyAsks asks before failure after first concerned
  · have own := asks before
    rw [yields] at own
    exact own.trans (later value between failure after second concerned)

end Failing

section Loading

theorem unconcerned_ofWriting (path : String) (fault : PathFault) :
    (Error.ofWriting path fault).concernsDocument = false := by
  cases fault <;> rfl

theorem unconcerned_replaceFile {failure : PathFault → Error}
    (other : ∀ fault, (failure fault).concernsDocument = false) (path text : String) :
    Unconcerned (Work.replaceFile failure path text) := by
  refine Unconcerned.bind (.of_never fun _ _ _ ran => by cases ran) fun workspace => ?_
  split
  · exact .of_never fun _ _ _ ran => by cases ran
  · exact .throw (other _)

theorem unconcerned_saveFile (path text : String) : Unconcerned (Work.saveFile path text) := by
  refine Unconcerned.bind (.of_never fun _ _ _ ran => by cases ran) fun workspace => ?_
  refine Unconcerned.bind (.of_never fun _ _ _ ran => by cases ran) fun _ => ?_
  split
  · exact .throw (unconcerned_ofWriting path _)
  · exact unconcerned_replaceFile (unconcerned_ofWriting path) path text

theorem unconcerned_saveDocument (document : Value) (path : String) :
    Unconcerned (saveDocument document path) := by
  unfold saveDocument
  split
  · exact (unconcerned_saveFile _ _).bind fun _ => .throw rfl
  · exact unconcerned_saveFile _ _

theorem onlyAsks_fetchDocument (url : String) : OnlyAsks (fetchDocument url) := by
  refine OnlyAsks.bind (fun before => ⟨[url], rfl⟩) fun _ => ?_
  refine OnlyAsks.bind (.of_still fun _ => rfl) fun workspace => ?_
  exact .of_still (Generator.still_liftExcept _)

theorem still_readDocument (path : String) : Generator.Still (readDocument path) := by
  refine Generator.Still.bind (fun _ => rfl) fun held => ?_
  split
  · exact fun _ => rfl
  · exact Generator.still_liftExcept _

theorem onlyAsks_loadDocument (source : DocumentSource) : OnlyAsks (loadDocument source) := by
  unfold loadDocument
  split
  · exact .of_still fun _ => rfl
  · split
    · exact onlyAsks_fetchDocument _
    · exact .of_still (still_readDocument _)
  · exact .of_still fun _ => rfl

/-- The cache is written last: behind it nothing fails, and it does not fail for the document. -/
theorem spares_updateDocument (settings : Settings) : Spares (updateDocument settings) := by
  have lifts {α : Type} (source : Except Error α) : OnlyAsks (liftExcept source : Work α) :=
    .of_still (Generator.still_liftExcept source)
  refine Spares.bind (lifts _) fun chosen => ?_
  split
  · exact Spares.bind (lifts _) fun _ => .of_onlyAsks (.of_still fun _ => rfl)
  · refine Spares.bind (onlyAsks_loadDocument _) fun document => ?_
    refine Spares.bind (lifts _) fun cache => ?_
    refine .of_unconcerned ((unconcerned_saveDocument document cache).bind fun _ => ?_)
    exact .of_never fun _ _ _ ran => by cases ran

end Loading

namespace Generator

theorem still_cacheInUse (generator : Generator) (refresh : Bool) :
    Still (generator.cacheInUse refresh) := by
  unfold cacheInUse
  split
  · exact fun _ => rfl
  · refine (still_liftExcept _).bind fun path => ?_
    exact Still.bind (Still.bind (fun _ => rfl) fun _ _ => rfl) fun held _ => rfl

theorem spares_sought (generator : Generator) (refresh : Bool) :
    Spares (generator.cacheInUse refresh >>= generator.documentFrom) := by
  refine Spares.bind (.of_still (still_cacheInUse generator refresh)) fun cached => ?_
  cases cached with
  | some path => exact .of_onlyAsks (.of_still (still_readDocument path))
  | none => exact spares_updateDocument generator.settings

theorem keepDocument_failed {generator later : Generator} {refresh : Bool} {failure : Error}
    {before after : Workspace}
    (failed : (ExceptT.run (keepDocument refresh)).run (generator, before) =
      (.error failure, later, after)) :
    later = generator ∧
      (ExceptT.run (generator.cacheInUse refresh >>= generator.documentFrom)).run before =
        (.error failure, after) := by
  rw [run_keepDocument] at failed
  split at failed
  · cases failed
  · rw [run_renewDocument] at failed
    split at failed
    · cases failed
    · rename_i left sought
      cases failed
      exact ⟨rfl, sought⟩

variable {generator later : Generator} {document : Value} {before after : Workspace}

theorem keepDocument_gave {refresh : Bool}
    (gave : Yields (keepDocument refresh) (generator, before) document (later, after)) :
    later = { generator with document := some document } := by
  rw [Yields, run_keepDocument] at gave
  split at gave
  · rename_i own held
    cases gave
    rw [← held]
  · exact (yields_renewDocument.mp gave).1

/-- A call to load: the generator and the workspace that it finds, what it comes to, and what it
leaves. -/
structure LoadCall where
  refresh : Bool
  generator : Generator
  before : Workspace
  outcome : Except Error Value
  later : Generator
  after : Workspace

def call (generator : Generator) (refresh : Bool) (before : Workspace) : LoadCall :=
  let (outcome, later, after) := (ExceptT.run (keepDocument refresh)).run (generator, before)
  { refresh, generator, before, outcome, later, after }

/-- Calls one after the other, each in a workspace of its own. -/
def calls (generator : Generator) : List (Bool × Workspace) → List LoadCall
  | [] => []
  | (refresh, before) :: rest =>
    generator.call refresh before :: (generator.call refresh before).later.calls rest

/-- Nothing but requests is left if the call fails for the document, and if it succeeds the document
is at hand. -/
structure LoadCall.IsSafe (call : LoadCall) : Prop where
  failed : ∀ failure, call.outcome = .error failure → failure.concernsDocument = true →
    call.later = call.generator ∧ call.before.Asked call.after
  loaded : ∀ document, call.outcome = .ok document →
    call.later = { call.generator with document := some document }

theorem run_call (generator : Generator) (refresh : Bool) (before : Workspace) :
    (ExceptT.run (keepDocument refresh)).run (generator, before) =
      ((generator.call refresh before).outcome, (generator.call refresh before).later,
        (generator.call refresh before).after) :=
  rfl

theorem later_of_failed {refresh : Bool} {failure : Error}
    (failed : (generator.call refresh before).outcome = .error failure) :
    (generator.call refresh before).later = generator := by
  have ran := run_call generator refresh before
  rw [failed] at ran
  exact (keepDocument_failed ran).1

theorem isSafe_call (generator : Generator) (refresh : Bool) (before : Workspace) :
    (generator.call refresh before).IsSafe := by
  have ran := run_call generator refresh before
  refine ⟨fun failure failed concerned => ?_, fun document loaded => ?_⟩
  · rw [failed] at ran
    obtain ⟨same, sought⟩ := keepDocument_failed ran
    exact ⟨same, spares_sought generator refresh before failure _ sought concerned⟩
  · rw [loaded] at ran
    exact keepDocument_gave ran

theorem call_of_document (held : generator.document = some document) (before : Workspace) :
    generator.call false before =
      { refresh := false, generator, before, outcome := .ok document, later := generator,
        after := before } := by
  cases generator
  cases held
  rfl

theorem exists_calls {asked : List (Bool × Workspace)} {front back : List LoadCall}
    (made : generator.calls asked = front ++ back) :
    ∃ (last : Generator) (others : List (Bool × Workspace)), last.calls others = back := by
  induction front generalizing generator asked with
  | nil => exact ⟨generator, asked, made⟩
  | cons first rest ih =>
      cases asked with
      | nil => cases made
      | cons request others => exact ih (List.cons.inj made).2

/-- The document at hand is given until a refresh succeeds. -/
theorem calls_of_document {asked : List (Bool × Workspace)} {between back : List LoadCall}
    {call : LoadCall} (held : generator.document = some document)
    (made : generator.calls asked = between ++ call :: back)
    (none_fresh : ∀ other ∈ between, other.refresh = true →
      ∃ failure, other.outcome = .error failure)
    (plain : call.refresh = false) :
    call.outcome = .ok document ∧ call.later = call.generator ∧ call.after = call.before := by
  induction between generalizing generator asked with
  | nil =>
      cases asked with
      | nil => cases made
      | cons request others =>
          rcases request with ⟨refresh, before⟩
          rcases List.cons.inj made with ⟨own, -⟩
          obtain rfl : refresh = false := (congrArg LoadCall.refresh own).trans plain
          rw [call_of_document held] at own
          rw [← own]
          exact ⟨rfl, rfl, rfl⟩
  | cons first rest ih =>
      cases asked with
      | nil => cases made
      | cons request others =>
          rcases request with ⟨refresh, before⟩
          rcases List.cons.inj made with ⟨own, behind⟩
          have kept : (generator.call refresh before).later = generator := by
            cases refresh with
            | false => rw [call_of_document held]
            | true =>
                rcases none_fresh first List.mem_cons_self (congrArg LoadCall.refresh own).symm
                  with ⟨failure, failed⟩
                rw [← own] at failed
                exact later_of_failed failed
          rw [kept] at behind
          exact ih held behind fun other member =>
            none_fresh other (List.mem_cons_of_mem first member)

/-- Over any calls in any workspaces: one that fails for the document or its source leaves the
generator as it was, and nothing but requests; one that succeeds has its document at hand; and that
document is given by every call without refresh, which changes nothing, until a refresh succeeds. -/
theorem load_calls (generator : Generator) (asked : List (Bool × Workspace)) :
    (∀ call ∈ generator.calls asked, call.IsSafe) ∧
    ∀ front first between call back document,
      generator.calls asked = front ++ first :: (between ++ call :: back) →
      first.outcome = .ok document →
      (∀ other ∈ between, other.refresh = true → ∃ failure, other.outcome = .error failure) →
      call.refresh = false →
        call.outcome = .ok document ∧ call.later = call.generator ∧ call.after = call.before := by
  have safe : ∀ call ∈ generator.calls asked, call.IsSafe := by
    induction asked generalizing generator with
    | nil => simp [calls]
    | cons request rest ih =>
        rcases request with ⟨refresh, before⟩
        intro call member
        rcases List.mem_cons.mp member with rfl | behind
        · exact isSafe_call generator refresh before
        · exact ih _ call behind
  refine ⟨safe, fun front first between call back document made loaded none_fresh plain => ?_⟩
  have own : first.IsSafe := safe first (by rw [made]; simp)
  rcases exists_calls made with ⟨last, others, shape⟩
  cases others with
  | nil => cases shape
  | cons request rest =>
      rcases request with ⟨refresh, before⟩
      rcases List.cons.inj shape with ⟨same, behind⟩
      have held : (last.call refresh before).later.document = some document := by
        rw [same, own.loaded document loaded]
      exact calls_of_document held behind none_fresh plain

def versionedGenerator : Generator where
  settings := cachedSettings
  document := some versionedDocument

theorem call_missing : versionedGenerator.call true {} =
    ⟨true, versionedGenerator, {}, .error (.document "/doc.json" .noFile), versionedGenerator,
      {}⟩ := by
  rfl

theorem call_versioned : call { settings := cachedSettings } true versionedWorkspace =
    ⟨true, { settings := cachedSettings }, versionedWorkspace, .ok versionedDocument,
      versionedGenerator, cachedWorkspace⟩ := by
  have updated := yields_updateDocument.mpr ⟨_, _, _, source_cachedSettings,
    cachePath_cachedSettings, loaded_versioned, saved_versioned⟩
  have loaded := (@yields_load_refresh { settings := cachedSettings } _ _ _ _).mpr ⟨rfl, updated⟩
  have ran := yields_load.mp loaded
  unfold call
  rw [ran]
  rfl

/-- The file is loaded, then it is gone, cache and all: a refresh fails, and without one the
document is given. -/
theorem load_calls_versioned : ∃ first second third,
    calls { settings := cachedSettings } [(true, versionedWorkspace), (true, {}), (false, {})] =
      [first, second, third] ∧
    first.outcome = .ok versionedDocument ∧
    first.later.document = some versionedDocument ∧
    second.outcome = .error (.document "/doc.json" .noFile) ∧
    second.later = second.generator ∧ second.before.Asked second.after ∧
    third.outcome = .ok versionedDocument ∧ third.after = third.before := by
  let failing := versionedGenerator.call true {}
  let last := versionedGenerator.call false {}
  have made : calls { settings := cachedSettings }
      [(true, versionedWorkspace), (true, {}), (false, {})] =
        [⟨true, { settings := cachedSettings }, versionedWorkspace, .ok versionedDocument,
          versionedGenerator, cachedWorkspace⟩, failing, last] := by
    rw [calls, call_versioned, calls, call_missing]
    rfl
  obtain ⟨safe, given⟩ := load_calls { settings := cachedSettings }
    [(true, versionedWorkspace), (true, {}), (false, {})]
  rw [made] at safe
  have second := (safe failing (by simp)).failed (.document "/doc.json" .noFile) rfl rfl
  have fails : ∀ other ∈ [failing], other.refresh = true →
      ∃ failure, other.outcome = .error failure := by
    intro other member _
    rw [List.mem_singleton.mp member]
    exact ⟨_, rfl⟩
  have third := given [] _ [failing] last [] versionedDocument made rfl fails rfl
  exact ⟨_, _, _, made, rfl, rfl, rfl, second.1, second.2, third.1, third.2.2⟩

end Generator

end TypedClient

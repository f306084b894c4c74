import TypedClient.Proofs.Outcome
import TypedClient.Proofs.Stateful
import TypedClient.Proofs.Text.Lines
import TypedClient.Workspace

namespace TypedClient

namespace Disk

variable {disk : Disk} {place : Place} {content : Content}

theorem lookup_map_put (place other : Place) (content : Content) (files : List (Place × Content)) :
    (files.map fun file => if file.1 == place then (place, content) else file).lookup other =
      if other = place ∧ (files.lookup place).isSome then some content else files.lookup other := by
  induction files with
  | nil => simp
  | cons first rest ih =>
      obtain ⟨own, text⟩ := first
      rw [List.map_cons, List.lookup_cons, List.lookup_cons, List.lookup_cons, ih]
      by_cases rewritten : own = place
      · subst rewritten
        by_cases same : other = own
        · simp [same]
        · have differs : (other == own) = false := beq_eq_false_iff_ne.mpr same
          simp [differs, same]
      · by_cases same : other = place
        · have differs : (place == own) = false := beq_eq_false_iff_ne.mpr (Ne.symm rewritten)
          rw [same, if_neg (mt beq_iff_eq.mp rewritten)]
          dsimp only
          rw [differs]
        · simp [rewritten, same]

/-- Writing a file changes what stands at its place, and nothing else. -/
theorem file?_put (disk : Disk) (place : Place) (content : Content) :
    (disk.put place content).file? = Function.update disk.file? place (some content) := by
  funext other
  unfold put
  split
  · rename_i held
    unfold file? at *
    dsimp only
    rw [lookup_map_put]
    by_cases same : other = place
    · simp [same, held]
    · simp [same]
  · rename_i absent
    unfold file? at *
    dsimp only
    rw [List.lookup_append]
    by_cases same : other = place
    · simp [same, Option.not_isSome_iff_eq_none.mp absent]
    · have apart : (other == place) = false := beq_eq_false_iff_ne.mpr same
      simp [same, List.lookup_cons, apart]

theorem isDirectory_put (disk : Disk) (place other : Place) (content : Content) :
    (disk.put place content).isDirectory other = disk.isDirectory other := by
  unfold put isDirectory
  split <;> rfl

structure Grows (before after : Disk) : Prop where
  directories : ∀ place, before.isDirectory place = true → after.isDirectory place = true
  files : ∀ place, (before.file? place).isSome → (after.file? place).isSome
  apart : ∀ place, (before.file? place).isSome → before.isDirectory place = false →
    after.isDirectory place = false

theorem Grows.refl (disk : Disk) : disk.Grows disk where
  directories := fun _ held => held
  files := fun _ held => held
  apart := fun _ _ outside => outside

theorem Grows.trans {first second third : Disk} (grows : first.Grows second)
    (grows' : second.Grows third) : first.Grows third where
  directories := fun place held => grows'.directories place (grows.directories place held)
  files := fun place held => grows'.files place (grows.files place held)
  apart := fun place held outside =>
    grows'.apart place (grows.files place held) (grows.apart place held outside)

theorem grows_put (disk : Disk) (place : Place) (content : Content) :
    disk.Grows (disk.put place content) where
  directories := fun other held => by rwa [isDirectory_put]
  files := fun other held => by
    rw [file?_put]
    by_cases same : other = place
    · simp [same]
    · rwa [Function.update_of_ne same]
  apart := fun other _ outside => by rwa [isDirectory_put]

section Made

variable {made : Disk} {places : List Place}

theorem makeDirectory_spec (makes : disk.makeDirectory place = .ok made) :
    disk.Grows made ∧ made.file? = disk.file? ∧ made.isDirectory place = true := by
  unfold makeDirectory at makes
  split at makes
  · rename_i there
    cases makes
    exact ⟨.refl disk, rfl, there⟩
  · split at makes
    · cases makes
    · rename_i free
      split at makes
      · cases makes
      · split at makes
        · cases makes
        · cases makes
          refine ⟨⟨?_, fun _ held => held, ?_⟩, rfl, by simp [isDirectory]⟩
          · intro other held
            simp only [isDirectory, List.contains_eq_mem, decide_eq_true_eq] at held ⊢
            simp [held]
          · intro other held outside
            have differs : other ≠ place := by
              rintro rfl
              exact free held
            simp only [isDirectory, List.contains_eq_mem, decide_eq_false_iff_not] at outside ⊢
            simp [outside, differs]

theorem makeDirectories_spec (makes : disk.makeDirectories places = (made, none)) :
    disk.Grows made ∧ made.file? = disk.file? ∧
      ∀ place ∈ places, made.isDirectory place = true := by
  induction places generalizing disk with
  | nil =>
      cases makes
      exact ⟨.refl _, rfl, by simp⟩
  | cons first rest ih =>
      rw [makeDirectories] at makes
      split at makes
      · rename_i next single
        rcases makeDirectory_spec single with ⟨grows, files, there⟩
        rcases ih makes with ⟨grows', files', others⟩
        refine ⟨grows.trans grows', files'.trans files, ?_⟩
        intro place member
        rcases List.mem_cons.mp member with rfl | member
        · exact grows'.directories _ there
        · exact others place member
      · cases makes

theorem makeDirectories_of_there (there : ∀ place ∈ places, disk.isDirectory place = true) :
    disk.makeDirectories places = (disk, none) := by
  induction places with
  | nil => rfl
  | cons first rest ih =>
      have own : disk.makeDirectory first = .ok disk := by
        rw [makeDirectory, if_pos (there first (by simp))]
      rw [makeDirectories, own]
      exact ih fun place member => there place (by simp [member])

end Made

section Paths

variable {after : Disk} {directory found start : Place} {path : String} {steps : List String}

theorem walk_grows (grows : disk.Grows after) (walked : disk.walk start steps = .ok found) :
    after.walk start steps = .ok found := by
  induction steps generalizing start with
  | nil => exact walked
  | cons step rest ih =>
      rw [walk] at *
      split at walked
      · cases walked
      · rename_i inside
        split at walked
        · cases walked
        · rename_i short
          have kept := grows.directories start (by simpa using inside)
          rw [if_neg (by simp [kept]), if_neg short]
          exact ih walked

theorem locate_grows (grows : disk.Grows after) (located : disk.locate directory path = .ok found) :
    after.locate directory path = .ok found := by
  unfold locate at *
  split at located
  · cases located
  · rename_i given
    split at located
    · cases located
    · rename_i spelled
      split at located
      · cases located
      · rename_i short
        rw [if_neg given, if_neg spelled, if_neg short]
        exact walk_grows grows located

theorem eq_of_walk (walked : disk.walk start steps = .ok found) :
    found = steps.foldl Path.enter start := by
  induction steps generalizing start with
  | nil =>
      cases walked
      rfl
  | cons step rest ih =>
      rw [walk] at walked
      split at walked
      · cases walked
      · split at walked
        · cases walked
        · exact ih walked

theorem eq_of_locate (located : disk.locate directory path = .ok found) :
    found = Path.absolute directory path := by
  unfold locate at located
  split at located
  · cases located
  · split at located
    · cases located
    · split at located
      · cases located
      · exact eq_of_walk located

theorem target_eq_ok : disk.target directory path = .ok found ↔
    disk.locate directory path = .ok found ∧ Path.endsWith "/" path = false ∧
      disk.isDirectory found = false := by
  unfold target
  rw [bind_eq_ok]
  constructor
  · rintro ⟨located, reached, chosen⟩
    split at chosen
    · cases chosen
    · rename_i outside
      cases chosen
      rw [Bool.or_eq_true, not_or, Bool.not_eq_true, Bool.not_eq_true] at outside
      exact ⟨reached, outside.1, outside.2⟩
  · rintro ⟨reached, named, outside⟩
    refine ⟨found, reached, ?_⟩
    rw [if_neg (by simp [named, outside])]
    rfl

/-- A path at whose place a file stands that can be read and written again as it is. -/
structure Ready (disk : Disk) (directory : Place) (path : String) : Prop where
  target : disk.target directory path = .ok (Path.absolute directory path)
  above : ∀ place ∈ above (Path.absolute directory path).dropLast, disk.isDirectory place = true
  held : (disk.file? (Path.absolute directory path)).isSome

theorem Ready.grows (ready : disk.Ready directory path) (grows : disk.Grows after) :
    after.Ready directory path where
  target := by
    rcases target_eq_ok.mp ready.target with ⟨located, named, outside⟩
    exact target_eq_ok.mpr ⟨locate_grows grows located, named, grows.apart _ ready.held outside⟩
  above := fun place member => grows.directories place (ready.above place member)
  held := grows.files _ ready.held

/-- A file stands at a place only together with the directories above it. -/
def Housed (disk : Disk) (place : Place) : Prop :=
  (disk.file? place).isSome → ∀ directory ∈ above place.dropLast, disk.isDirectory directory = true

theorem fileAt?_of_locate (located : disk.locate directory path = .ok found)
    (named : Path.endsWith "/" path = false) :
    disk.fileAt? directory path = (disk.file? found).map fun content => (found, content) := by
  unfold fileAt?
  rw [located, named]
  dsimp only [Except.toOption, Option.bind_eq_bind, Option.bind_some]
  rw [if_neg Bool.false_ne_true]
  cases disk.file? found <;> rfl

theorem fileAt?_of_target (reached : disk.target directory path = .ok found) :
    disk.fileAt? directory path = (disk.file? found).map fun content => (found, content) := by
  rcases target_eq_ok.mp reached with ⟨located, named, -⟩
  exact fileAt?_of_locate located named

theorem located_of_fileAt? {content : Content}
    (held : disk.fileAt? directory path = some (found, content)) :
    disk.locate directory path = .ok (Path.absolute directory path) ∧
      Path.endsWith "/" path = false ∧
      disk.file? (Path.absolute directory path) = some content := by
  unfold fileAt? at held
  rcases Option.bind_eq_some_iff.mp held with ⟨place, reached, stands⟩
  have located := eq_ok_of_toOption reached
  have own := eq_of_locate located
  subst own
  split at stands
  · cases stands
  · rename_i named
    rcases Option.bind_eq_some_iff.mp stands with ⟨content', file, made⟩
    cases made
    exact ⟨located, Bool.eq_false_iff.mpr named, file⟩

theorem fileAt?_of_absent (absent : disk.file? (Path.absolute directory path) = none) :
    disk.fileAt? directory path = none := by
  unfold fileAt?
  cases located : disk.locate directory path with
  | error fault => rfl
  | ok found =>
      rw [eq_of_locate located]
      dsimp only [Except.toOption, Option.bind_eq_bind, Option.bind_some]
      split
      · rfl
      · rw [absent]
        rfl

end Paths

end Disk

/-- The text of a file that has been written, as it is read again. -/
def reread (text : String) : String := String.ofList (Text.unifyBreaks text.toList)

theorem lines_reread (text : String) :
    Text.lines (reread text).toList = Text.lines text.toList := by
  rw [reread, String.toList_ofList, Text.lines_unifyBreaks]

def shownText : Option Content → String
  | some (.text text) => reread text
  | _ => ""

namespace Work

theorem yields_fileAt? {path : String} {before after : Workspace}
    {found : Option (Place × Content)} :
    Yields (fileAt? path) before found after ↔
      found = before.disk.fileAt? before.directory path ∧ after = before := by
  unfold fileAt?
  rw [yields_bind]
  constructor
  · rintro ⟨_, _, got, ran⟩
    rcases (yields_get _ _ _).mp got with ⟨rfl, rfl⟩
    exact (yields_pure _ _ _ _).mp ran
  · rintro ⟨rfl, rfl⟩
    exact ⟨_, _, (yields_get _ _ _).mpr ⟨rfl, rfl⟩, (yields_pure _ _ _ _).mpr ⟨rfl, rfl⟩⟩

/-- Reading gives the text of the file that is there, and nothing if there is none. -/
theorem yields_fileText_iff {path content : String} {before after : Workspace} :
    Yields (fileText path) before content after ↔ after = before ∧
      ((before.disk.fileAt? before.directory path = none ∧ content = "") ∨
        ∃ place text, before.disk.fileAt? before.directory path = some (place, .text text) ∧
          content = reread text) := by
  unfold fileText
  rw [yields_bind]
  constructor
  · rintro ⟨found, between, reads, shows⟩
    rcases yields_fileAt?.mp reads with ⟨rfl, rfl⟩
    split at shows
    · rename_i absent
      rcases (yields_pure _ _ _ _).mp shows with ⟨rfl, rfl⟩
      exact ⟨rfl, .inl ⟨absent, rfl⟩⟩
    · rename_i place text held
      rcases (yields_pure _ _ _ _).mp shows with ⟨rfl, rfl⟩
      exact ⟨rfl, .inr ⟨place, text, held, rfl⟩⟩
    · exact absurd shows (yields_throw _ _ _ _)
  · rintro ⟨rfl, held⟩
    refine ⟨_, _, yields_fileAt?.mpr ⟨rfl, rfl⟩, ?_⟩
    rcases held with ⟨absent, rfl⟩ | ⟨place, text, found, rfl⟩
    · rw [absent]
      exact (yields_pure _ _ _ _).mpr ⟨rfl, rfl⟩
    · rw [found]
      exact (yields_pure _ _ _ _).mpr ⟨rfl, rfl⟩

theorem yields_replaceFile_iff {failure : PathFault → Error} {path text : String}
    {before after : Workspace} :
    Yields (replaceFile failure path text) before () after ↔
      ∃ place, before.disk.target before.directory path = .ok place ∧
        after = { before with disk := before.disk.put place (.text text) } := by
  unfold replaceFile
  rw [yields_bind]
  constructor
  · rintro ⟨_, _, got, puts⟩
    rcases (yields_get _ _ _).mp got with ⟨rfl, rfl⟩
    split at puts
    · rename_i place found
      exact ⟨place, found, (yields_set _ _ _ _).mp puts⟩
    · exact absurd puts (yields_throw _ _ _ _)
  · rintro ⟨place, found, rfl⟩
    refine ⟨_, _, (yields_get _ _ _).mpr ⟨rfl, rfl⟩, ?_⟩
    rw [found]
    exact (yields_set _ _ _ _).mpr rfl

/-- Saving a file makes the directories on the way to it, and puts it at its place. -/
theorem yields_saveFile_iff {path text : String} {before after : Workspace} :
    Yields (saveFile path text) before () after ↔
      ∃ (disk : Disk) (place : Place),
        before.disk.makeDirectories (Disk.above (Path.absolute before.directory path).dropLast) =
          (disk, none) ∧
        disk.target before.directory path = .ok place ∧
        after = { before with disk := disk.put place (.text text) } := by
  unfold saveFile
  rw [yields_bind]
  constructor
  · rintro ⟨_, _, got, makes⟩
    rcases (yields_get _ _ _).mp got with ⟨rfl, rfl⟩
    dsimp only at makes
    generalize Disk.makeDirectories _ _ = made at makes ⊢
    rcases made with ⟨disk, fault⟩
    rcases (yields_bind _ _ _ _ _).mp makes with ⟨_, between, kept, writes⟩
    have same := (yields_set _ _ _ _).mp kept
    subst same
    cases fault with
    | some fault => exact absurd writes (yields_throw _ _ _ _)
    | none =>
        rcases yields_replaceFile_iff.mp writes with ⟨place, found, rfl⟩
        exact ⟨disk, place, rfl, found, rfl⟩
  · rintro ⟨disk, place, made, found, rfl⟩
    refine ⟨_, _, (yields_get _ _ _).mpr ⟨rfl, rfl⟩, ?_⟩
    dsimp only
    rw [made]
    refine (yields_bind _ _ _ _ _).mpr ⟨(), _, (yields_set _ _ _ _).mpr rfl, ?_⟩
    exact yields_replaceFile_iff.mpr ⟨place, found, rfl⟩

theorem yields_report {path : String} {before after : Workspace} {value : Unit} :
    Yields (report path) before value after ↔
      after = { before with reported := before.reported ++ [path] } :=
  yields_modify _ _ _ _

theorem yields_ofNoted {α : Type} {action : Noted α} {before after : Workspace} {value : α} :
    Yields (ofNoted action) before value after ↔ action.outcome.1 = .ok value ∧
      after = { before with notices := before.notices ++ action.outcome.2 } := by
  change (action.outcome.1, { before with notices := before.notices ++ action.outcome.2 }) =
    (Except.ok value, after) ↔ _
  rw [Prod.mk.injEq]
  exact and_congr_right fun _ => eq_comm

structure Saved (path text : String) (before after : Workspace) : Prop where
  directory : after.directory = before.directory
  files : after.disk.file? = Function.update before.disk.file?
    (Path.absolute before.directory path) (some (.text text))
  grows : before.disk.Grows after.disk
  ready : after.disk.Ready before.directory path

section Saved

variable {path text content : String} {before after : Workspace}

theorem saved_of_yields (ran : Yields (saveFile path text) before () after) :
    Saved path text before after := by
  rcases yields_saveFile_iff.mp ran with ⟨disk, place, made, found, rfl⟩
  rcases Disk.makeDirectories_spec made with ⟨grows, files, there⟩
  rcases Disk.target_eq_ok.mp found with ⟨located, named, outside⟩
  have own := Disk.eq_of_locate located
  subst own
  have puts := Disk.grows_put disk (Path.absolute before.directory path) (.text text)
  refine ⟨rfl, by rw [Disk.file?_put, files], grows.trans puts, ⟨?_, ?_, ?_⟩⟩
  · exact Disk.target_eq_ok.mpr
      ⟨Disk.locate_grows puts located, named, by rwa [Disk.isDirectory_put]⟩
  · exact fun above member => puts.directories above (there above member)
  · rw [Disk.file?_put, Function.update_self]
    rfl

theorem yields_saveFile_of_ready (ready : before.disk.Ready before.directory path) (text : String) :
    Yields (saveFile path text) before () { before with
      disk := before.disk.put (Path.absolute before.directory path) (.text text) } :=
  yields_saveFile_iff.mpr
    ⟨before.disk, _, Disk.makeDirectories_of_there ready.above, ready.target, rfl⟩

theorem yields_fileText_of_ready (ready : before.disk.Ready before.directory path)
    (held : before.disk.file? (Path.absolute before.directory path) = some (.text text)) :
    Yields (fileText path) before (reread text) before := by
  refine yields_fileText_iff.mpr
    ⟨rfl, .inr ⟨Path.absolute before.directory path, text, ?_, rfl⟩⟩
  rw [Disk.fileAt?_of_target ready.target, held]
  rfl

theorem yields_fileText_of_saveFile (ran : Yields (saveFile path text) before () after) :
    Yields (fileText path) after (reread text) after := by
  have saved := saved_of_yields ran
  have ready := saved.ready
  rw [← saved.directory] at ready
  apply yields_fileText_of_ready ready
  rw [saved.files, saved.directory, Function.update_self]

theorem eq_shownText_of_saved {between : Workspace}
    (reads : Yields (fileText path) before content between)
    (ran : Yields (saveFile path text) before () after)
    (housed : before.disk.Housed (Path.absolute before.directory path)) :
    content = shownText (before.disk.file? (Path.absolute before.directory path)) := by
  rcases yields_saveFile_iff.mp ran with ⟨disk, place, made, found, -⟩
  rcases yields_fileText_iff.mp reads with ⟨-, shown⟩
  cases held : before.disk.file? (Path.absolute before.directory path) with
  | none =>
      rw [Disk.fileAt?_of_absent held] at shown
      rcases shown with ⟨-, rfl⟩ | ⟨_, _, some_found, -⟩
      · rfl
      · cases some_found
  | some stands =>
      -- The directories above the file are there, so that its path leads to it already.
      rw [Disk.makeDirectories_of_there (housed (by rw [held]; rfl))] at made
      cases made
      have own := Disk.eq_of_locate (Disk.target_eq_ok.mp found).1
      subst own
      rw [Disk.fileAt?_of_target found, held] at shown
      rcases shown with ⟨absent, -⟩ | ⟨_, _, some_found, rfl⟩
      · cases absent
      · cases some_found
        rfl

end Saved

end Work

end TypedClient

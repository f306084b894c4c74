import TypedClient.Document
import TypedClient.Proofs.Workspace
import TypedClient.Proofs.Yaml.Regular

/-!
Documents that are loaded, and documents that are saved and read again. What is loaded from a place
is a regular object, and spelled by JSON text unless it comes from YAML; a saved document is read
back from its file exactly if it is an object whose keys, at every depth, are texts.
-/

namespace TypedClient

section Loaded

variable {document : Value} {place path url : String} {before after : Workspace}

theorem spellable_of_answer {answer : WebAnswer}
    (brought : documentOfAnswer url answer = .ok document) :
    document.Spellable ∧ document.isObject = true := by
  unfold documentOfAnswer at brought
  split at brought
  · cases brought
  · split at brought
    · cases brought
    · split at brought
      · cases brought
      · cases brought
        exact ⟨Json.spellable_of_read ‹_›, rfl⟩
      · cases brought

theorem valueOfContent_of_documentOfContent {content : Content}
    (read : documentOfContent path content = .ok document) :
    valueOfContent path content = .ok document ∧ document.isObject = true := by
  obtain ⟨value, found, made⟩ := (bind_eq_ok _ _ _).mp read
  split at made
  · cases made
    exact ⟨found, rfl⟩
  · cases made

/-- What a file holds is regular, and spelled by JSON text if it is no YAML. -/
theorem regular_of_content {content : Content}
    (read : documentOfContent path content = .ok document) :
    document.Regular ∧ document.isObject = true ∧
      (isYamlPath path = false → document.Spellable) := by
  obtain ⟨found, object⟩ := valueOfContent_of_documentOfContent read
  unfold valueOfContent at found
  split at found
  · cases found
  · dsimp only at found
    split at found
    · rename_i yaml
      refine ⟨Yaml.regular_read ((mapError_eq_ok _ _ _).mp found), object, fun plain => ?_⟩
      rw [yaml] at plain
      cases plain
    · split at found
      · cases found
        have spellable := Json.spellable_of_read ‹_›
        exact ⟨spellable.regular, object, fun _ => spellable⟩
      · cases found

theorem yields_readDocument {found : Value} : Yields (readDocument path) before found after ↔
    after = before ∧ ∃ place content,
      before.disk.fileAt? before.directory path = some (place, content) ∧
        documentOfContent path content = .ok found := by
  unfold readDocument
  rw [yields_bind]
  constructor
  · rintro ⟨_, _, got, read⟩
    obtain ⟨rfl, rfl⟩ := Work.yields_fileAt?.mp got
    split at read
    · exact absurd read (yields_throw _ _ _ _)
    · rename_i place content held
      obtain ⟨made, same⟩ := (yields_liftExcept _ _ _ _).mp read
      exact ⟨same, place, content, held, made⟩
  · rintro ⟨rfl, place, content, held, made⟩
    refine ⟨_, _, Work.yields_fileAt?.mpr ⟨rfl, rfl⟩, ?_⟩
    rw [held]
    exact (yields_liftExcept _ _ _ _).mpr ⟨made, rfl⟩

theorem answer_of_fetchDocument (loaded : Yields (fetchDocument url) before document after) :
    ∃ answer, documentOfAnswer url answer = .ok document := by
  unfold fetchDocument at loaded
  obtain ⟨_, _, -, loaded⟩ := (yields_bind _ _ _ _ _).mp loaded
  obtain ⟨_, _, -, loaded⟩ := (yields_bind _ _ _ _ _).mp loaded
  exact ⟨_, ((yields_liftExcept _ _ _ _).mp loaded).1⟩

theorem regular_of_place {value : Value}
    (loaded : Yields (loadDocument (.place value)) before document after) :
    document.Regular ∧ document.isObject = true ∧
      ∀ place, value = .text place → isWebAddress place = true ∨ isYamlPath place = false →
        document.Spellable := by
  unfold loadDocument at loaded
  split at loaded
  · rename_i same
    cases same
  · rename_i place same
    cases same
    split at loaded
    · obtain ⟨answer, brought⟩ := answer_of_fetchDocument loaded
      obtain ⟨spellable, object⟩ := spellable_of_answer brought
      exact ⟨spellable.regular, object, fun _ _ _ => spellable⟩
    · rename_i file
      obtain ⟨-, _, content, -, made⟩ := yields_readDocument.mp loaded
      obtain ⟨regular, object, plain⟩ := regular_of_content made
      refine ⟨regular, object, fun other same given => ?_⟩
      cases same
      exact plain (given.resolve_left file)
  · exact absurd loaded (yields_throw _ _ _ _)

end Loaded

section Saved

variable {document found : Value} {path : String} {before after : Workspace}

theorem yields_saveDocument (saved : Yields (saveDocument document path) before () after) :
    Json.breakOf document = none ∧
      Yields (Work.saveFile path (Json.pretty 0 document)) before () after := by
  unfold saveDocument at saved
  split at saved
  · obtain ⟨_, _, -, thrown⟩ := (yields_bind _ _ _ _ _).mp saved
    exact absurd thrown (yields_throw _ _ _ _)
  · exact ⟨‹_›, saved⟩

theorem documentOfContent_pretty (plain : isYamlPath path = false) (spellable : document.Spellable)
    (object : document.isObject = true) :
    documentOfContent path (.text (Json.pretty 0 document)) = .ok document := by
  have back := Json.read_reread_pretty spellable 0
  have read : valueOfContent path (.text (Json.pretty 0 document)) = .ok document := by
    unfold reread at back
    unfold valueOfContent
    dsimp only
    rw [plain, if_neg Bool.false_ne_true, back]
  rw [documentOfContent, read]
  cases document with
  | object entries => rfl
  | scalar s => cases object
  | list items => cases object

theorem fileAt?_of_saveFile {text : String}
    (saved : Yields (Work.saveFile path text) before () after) : ∃ place,
      after.disk.fileAt? after.directory path = some (place, .text text) := by
  have kept := Work.saved_of_yields saved
  have ready := kept.ready
  rw [← kept.directory] at ready
  refine ⟨Path.absolute after.directory path, ?_⟩
  rw [Disk.fileAt?_of_target ready.target, kept.files, kept.directory, Function.update_self]
  rfl

/-- A saved document is read back exactly if it is an object with texts as keys, at every depth. -/
theorem yields_readDocument_of_saved (plain : isYamlPath path = false) (regular : document.Regular)
    (saved : Yields (saveDocument document path) before () after) :
    Yields (readDocument path) after document after ↔
      document.TextKeyed ∧ document.isObject = true := by
  obtain ⟨whole, saved⟩ := yields_saveDocument saved
  obtain ⟨place, held⟩ := fileAt?_of_saveFile saved
  rw [yields_readDocument]
  constructor
  · rintro ⟨-, _, content, found, made⟩
    obtain ⟨-, object, spelled⟩ := regular_of_content made
    exact ⟨(spelled plain).textKeyed, object⟩
  · rintro ⟨keyed, object⟩
    have spellable := Json.spellable_of_whole regular keyed whole
    exact ⟨rfl, place, _, held, documentOfContent_pretty plain spellable object⟩

end Saved

end TypedClient

import TypedClient.Proofs.Outcome
import TypedClient.Proofs.Output.Extended

namespace TypedClient

def markStart : List Char := "@UNOAPI[".toList

def Unmarked (text : List Char) : Prop := ¬ markStart <:+: text

theorem framed_unmarked : Import.Framed Unmarked := by
  apply Import.framed_not_infix (by decide)
  intro c framed marked
  have apart : Import.frame.all (!markStart.contains ·) = true := by decide
  have absent := List.all_eq_true.mp apart c framed
  simp [marked] at absent

structure ImportText.IsClean (line : List Char) : Prop where
  unbroken : Text.Unbroken line
  complete : isComplete line = true
  unmarked : Unmarked line

def CleanStatements (code : String) : Prop :=
  ∀ line ∈ statementLines code, ImportText.IsClean line

def ImportText.checkClean (line : List Char) : Bool :=
  line.all (!Text.isLineBreak ·) && isComplete line && !Text.contains markStart line

theorem ImportText.isClean_of_check {line : List Char} (checked : checkClean line = true) :
    IsClean line := by
  simp only [checkClean, Bool.and_eq_true] at checked
  refine ⟨Text.unbroken_of_all checked.1.1, checked.1.2, fun marked => ?_⟩
  have absent := checked.2
  rw [(Text.contains_iff _ _).mpr marked] at absent
  cases absent

theorem cleanStatements_of_check {code : String}
    (checked : (statementLines code).all ImportText.checkClean = true) : CleanStatements code :=
  fun line member => ImportText.isClean_of_check (List.all_eq_true.mp checked line member)

structure ImportEntry.IsClean (entry : ImportEntry) : Prop where
  printable : entry.Printable
  unmarked : entry.Holds Unmarked

namespace CleanStatements

variable {code : String}

theorem whole (clean : CleanStatements code) : WholeStatements code :=
  fun line member => (clean line member).complete

theorem entries (clean : CleanStatements code) :
    ∀ entry ∈ (splitSource code).imports, entry.IsClean := by
  rw [splitSource_of_whole clean.whole]
  intro entry member
  rcases List.mem_map.mp member with ⟨line, inside, rfl⟩
  exact ⟨ImportEntry.printable_parse (clean.whole.isStatement inside),
    ImportEntry.lacks_parse (by decide) (by decide) (clean line inside).unmarked⟩

end CleanStatements

theorem isClean_mergedWith {content : String} {incoming : List ImportEntry}
    (clean : CleanStatements content) (added : ∀ entry ∈ incoming, entry.IsClean) :
    ∀ entry ∈ mergedWith content incoming, entry.IsClean := by
  apply mergeImports_forall _ clean.entries added
  intro first second own own' _
  exact ⟨Import.Printable.merge own.printable own'.printable,
    Import.Holds.merge own.unmarked own'.unmarked⟩

section Own

variable {directory : Place} {api : Api} {path modelDir queryDir : String} {options : WriteOptions}

theorem importSpecifier_start {source target found : String}
    (specified : Path.importSpecifier directory source target = .ok found) :
    ∃ rest, found.toList = '.' :: rest := by
  unfold Path.importSpecifier at specified
  split at specified
  · cases specified
  · dsimp only at specified
    generalize (if Path.endsWith ".ts" _ = true then _ else _ : String) = short at specified
    split at specified
    · rename_i dotted
      cases specified
      rcases List.head?_eq_some_iff.mp (beq_iff_eq.mp dotted) with ⟨rest, shape⟩
      exact ⟨rest, shape⟩
    · cases specified
      exact ⟨'/' :: short.toList, by simp⟩

theorem shape_of_mem_ownImports {own : List Import} {statement : Import}
    (built : ownImports directory api path modelDir queryDir options = .ok own)
    (member : statement ∈ own) :
    ∃ specifier rest, specifier.toList = '.' :: rest ∧
      ((api.typeNames ≠ [] ∧ statement = typeImport specifier api.typeNames) ∨
        ∃ model ∈ api.queryModel, statement =
          { path := specifier, defaultName := some model.typeName, onlyType := true }) := by
  unfold ownImports at built
  rcases (bind_eq_ok _ _ _).mp built with ⟨models, modelled, built'⟩
  rcases (bind_eq_ok _ _ _).mp built' with ⟨query, queried, joined⟩
  cases joined
  rcases List.mem_append.mp member with held | held
  · unfold modelImports at modelled
    split at modelled
    · cases modelled
      cases held
    · rename_i given
      rcases (bind_eq_ok _ _ _).mp modelled with ⟨specifier, specified, made⟩
      cases made
      rcases importSpecifier_start specified with ⟨rest, start⟩
      refine ⟨specifier, rest, start, .inl ⟨?_, List.mem_singleton.mp held⟩⟩
      intro nothing
      simp [nothing] at given
  · unfold queryImports at queried
    split at queried
    · cases queried
      cases held
    · rename_i model given
      rcases (bind_eq_ok _ _ _).mp queried with ⟨specifier, specified, made⟩
      cases made
      rcases importSpecifier_start specified with ⟨rest, start⟩
      exact ⟨specifier, rest, start, .inr ⟨model, given, List.mem_singleton.mp held⟩⟩

/-- A statement that is built for a function is fit for its file if its text is. -/
theorem isClean_of_mem_ownImports {own : List Import} {statement : Import}
    (built : ownImports directory api path modelDir queryDir options = .ok own)
    (member : statement ∈ own) (clean : ImportText.IsClean statement.text.toList) :
    (ImportEntry.item statement).IsClean := by
  rcases shape_of_mem_ownImports built member with ⟨specifier, rest, start, shape⟩
  have plain : statement.asName = none := by
    rcases shape with ⟨-, rfl⟩ | ⟨model, -, rfl⟩ <;> rfl
  have target : statement.path = specifier := by
    rcases shape with ⟨-, rfl⟩ | ⟨model, -, rfl⟩ <;> rfl
  have held := Import.holds_text plain
  refine ⟨⟨held.mono fun part inside => clean.unbroken.of_subset inside.subset, ?_, ?_⟩,
    held.mono fun part inside marked => clean.unmarked (marked.trans inside)⟩
  · rw [target]
    exact ⟨'.', rest, start, rfl⟩
  · intro nothing
    have text : statement.text.toList =
        "import '".toList ++ statement.path.toList ++ "';".toList := by
      rw [statement.text_eq_printed, Import.printed, nothing]
      exact List.intercalate_singleton
    rw [← text]
    exact clean.complete

end Own

section Brought

variable {directory : Place} {api : Api} {path modelDir queryDir : String} {options : WriteOptions}
  {imports : List ImportEntry}

/-- Where the imports come from that a call of the writer brings to the file. -/
theorem source_of_mem_apiImports
    (made : apiImports directory api path modelDir queryDir options = .ok imports)
    {entry : ImportEntry} (member : entry ∈ imports) :
    (∃ setting ∈ options.imports, ∃ text, setting.toText = .ok text ∧
      entry ∈ (splitSource text).imports) ∨
    ∃ own, ownImports directory api path modelDir queryDir options = .ok own ∧
      ∃ statement ∈ own, entry = .item statement := by
  unfold apiImports at made
  rcases (bind_eq_ok _ _ _).mp made with ⟨settings, read, made'⟩
  rcases (bind_eq_ok _ _ _).mp made' with ⟨own, builds, joined⟩
  cases joined
  rcases List.mem_append.mp member with held | held
  · rcases List.mem_flatten.mp held with ⟨entries, listed, inside⟩
    rcases source_of_mapM read listed with ⟨setting, given, parsed⟩
    unfold configuredImports at parsed
    split at parsed
    · cases parsed
      cases inside
    · rcases (bind_eq_ok _ _ _).mp parsed with ⟨text, spelled, splits⟩
      cases splits
      exact .inl ⟨setting, given, text, spelled, inside⟩
  · rcases List.mem_map.mp held with ⟨statement, listed, rfl⟩
    exact .inr ⟨own, builds, statement, listed, rfl⟩

theorem isClean_apiImports
    (configured : ∀ setting ∈ options.imports, ∀ text, setting.toText = .ok text →
      CleanStatements text)
    (own : ∀ built, ownImports directory api path modelDir queryDir options = .ok built →
      ∀ statement ∈ built, ImportText.IsClean statement.text.toList)
    (made : apiImports directory api path modelDir queryDir options = .ok imports) :
    ∀ entry ∈ imports, entry.IsClean := by
  intro entry member
  rcases source_of_mem_apiImports made member with
    ⟨setting, given, text, spelled, inside⟩ | ⟨built, builds, statement, listed, rfl⟩
  · exact (configured setting given text spelled).entries entry inside
  · exact isClean_of_mem_ownImports builds listed (own built builds statement listed)

end Brought

end TypedClient

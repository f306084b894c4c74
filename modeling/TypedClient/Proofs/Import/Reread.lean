import TypedClient.Proofs.Import.Normal

/-!
Statements that are printed and read again. Every statement takes a line of its own, or two; what is
read from the two merges into the statement that they were printed for.
-/

namespace TypedClient

section Source

variable {entries : List ImportEntry}

theorem lines_importsText_end (printable : ∀ entry ∈ entries, entry.Printable) :
    Text.lines (importsText entries).toList = entries.flatMap ImportEntry.lines := by
  have statements := isStatement_of_mem_lines printable
  rw [importsText_eq_lines]
  apply Text.lines_join_solid
  · exact fun line member => (statements line member).unbroken
  · exact fun empty => absurd (statements [] empty).opens (by decide)

/-- Printed statements read as what each of them is read as, and leave no other lines. -/
theorem splitSource_importsText (readable : ∀ entry ∈ entries, entry.Readable) :
    splitSource (importsText entries) = ⟨entries.flatMap ImportEntry.reads, []⟩ := by
  have printable : ∀ entry ∈ entries, entry.Printable :=
    fun entry member => (readable entry member).printable
  have statements := isStatement_of_mem_lines printable
  have lines := statementsIn_of_isStatement statements
  have own : statementLines (importsText entries) = entries.flatMap ImportEntry.lines := by
    rw [statementLines, lines_importsText_end printable, lines.1]
  have others : plainLines (importsText entries) = [] := by
    rw [plainLines, lines_importsText_end printable, lines.2]
  have whole : WholeStatements (importsText entries) := by
    rw [WholeStatements, own]
    exact fun line member => (statements line member).complete
  rw [splitSource_of_whole whole, own, others, ImportEntry.Readable.parse_flatMap_lines readable]

end Source

namespace Import.Readable

variable {statement : Import}

theorem foldl_reads (readable : statement.Readable) (once : statement.names.Nodup) :
    (ImportEntry.item statement).reads.foldl addEntry [] = [.item statement] := by
  have names := eraseDups_of_nodup once
  rw [ImportEntry.reads]
  rcases reads_cases statement with single | ⟨default, given, own, only, double⟩
  · rw [single, names]
    rfl
  · have typed : Import.Readable
        { path := statement.path, defaultName := some default, onlyType := true } :=
      readable.of_reads (by simp [double])
    have listed : Import.Readable
        { path := statement.path, names := statement.names, onlyType := true } :=
      readable.of_reads (by simp [double, names])
    have merges := merges_of_key typed listed rfl (by simp)
    have whole : Import.merge
        { path := statement.path, defaultName := some default, onlyType := true }
        { path := statement.path, names := statement.names, onlyType := true } = statement := by
      have plain := readable.plain_of_default given
      have binds : isGiven (some default) = true := typed.isGiven_default
      cases statement with
      | mk path default' space names' onlyType =>
          cases given
          cases only
          cases plain
          simp [Import.merge, binds]
    rw [double, names]
    simp [addEntry, addImport, merges, whole]

end Import.Readable

section Statements

variable {statements : List Import}

theorem foldl_append_of_apart {front back : List ImportEntry} {added : List Import}
    (apart : ∀ statement ∈ added, ∀ current ∈ itemsOf front, current.merges statement = false) :
    (added.map .item).foldl addEntry (front ++ back) =
      front ++ (added.map .item).foldl addEntry back := by
  induction added generalizing back with
  | nil => rfl
  | cons first rest ih =>
      rcases List.forall_mem_cons.mp apart with ⟨own, others⟩
      rw [List.map_cons, List.foldl_cons, List.foldl_cons, addEntry, addEntry, addImport_append own,
        ih others]

/-- What is read for statements of different keys merges into them, one after the other. -/
theorem mergeImports_reads (readable : ∀ statement ∈ statements, statement.Readable)
    (once : ∀ statement ∈ statements, statement.names.Nodup)
    (single : (statements.map Import.key).Nodup) :
    mergeImports [] ((statements.map .item).flatMap ImportEntry.reads) = statements.map .item := by
  unfold mergeImports
  rw [List.nil_append]
  induction statements using List.reverseRecOn with
  | nil => rfl
  | append_singleton done last ih =>
      rw [List.map_append, List.nodup_append] at single
      have own : last.Readable := readable last (by simp)
      have before : ∀ statement ∈ done, statement.Readable :=
        fun statement member => readable statement (by simp [member])
      have earlier := ih before (fun statement member => once statement (by simp [member])) single.1
      -- The last statement is read as statements of its key, which no earlier one has.
      have apart : ∀ read ∈ last.reads, ∀ current ∈ itemsOf (done.map .item),
          current.merges read = false := by
        intro read member current held
        rw [itemsOf_map_item] at held
        rw [Bool.eq_false_iff]
        intro merges
        have same := Import.key_of_merges (before current held) (own.of_reads member) merges
        rw [own.key_of_mem_reads member] at same
        exact single.2.2 current.key (List.mem_map_of_mem held) last.key (by simp) same
      have added := @foldl_append_of_apart (done.map .item) [] last.reads apart
      rw [List.append_nil] at added
      rw [List.map_append, List.flatMap_append, List.foldl_append, earlier, List.map_singleton,
        List.flatMap_singleton, ImportEntry.reads, added, ← ImportEntry.reads,
        own.foldl_reads (once last (by simp))]

end Statements

/-- Statements of different keys are read back from what is printed: no other lines are left, and
what is read merges into them. -/
theorem importsText_reads_back {statements : List Import}
    (readable : ∀ statement ∈ statements, statement.Readable)
    (once : ∀ statement ∈ statements, statement.names.Nodup)
    (single : (statements.map Import.key).Nodup) :
    (splitSource (importsText (statements.map .item))).others = [] ∧
      mergeImports [] (splitSource (importsText (statements.map .item))).imports =
        statements.map .item := by
  have readable' : ∀ entry ∈ statements.map ImportEntry.item, entry.Readable :=
    List.forall_mem_map.mpr readable
  rw [splitSource_importsText readable']
  exact ⟨rfl, mergeImports_reads readable once single⟩

def petStatements : List Import :=
  [{ path := "./pets", defaultName := some "Pet", names := ["Owner", "Tag as PetTag"],
      onlyType := true },
    { path := "./pets", defaultName := some "load", names := ["save"] },
    { path := "./pets", asName := some "pets", onlyType := true },
    { path := "./pets", asName := some "pets" },
    { path := "./shops", names := ["$shop"] }]

theorem importsText_reads_back_pets :
    (∀ statement ∈ petStatements, statement.Readable) ∧
      (∀ statement ∈ petStatements, statement.names.Nodup) ∧
      (petStatements.map Import.key).Nodup ∧
      mergeImports [] (splitSource (importsText (petStatements.map .item))).imports =
        petStatements.map .item := by
  have readable : ∀ statement ∈ petStatements, statement.Readable := by decide
  have once : ∀ statement ∈ petStatements, statement.names.Nodup := by decide
  have single : (petStatements.map Import.key).Nodup := by decide
  exact ⟨readable, once, single, (importsText_reads_back readable once single).2⟩

end TypedClient

import TypedClient.Proofs.Import.Printing

namespace TypedClient

namespace Import

theorem clauses_eq_nil (statement : Import) :
    statement.clauses = [] ↔ statement.names = [] ∧ isGiven statement.asName = false ∧
      isGiven statement.defaultName = false := by
  have dups : statement.names.eraseDups = [] ↔ statement.names = [] := by
    cases statement.names with
    | nil => simp
    | cons first rest => simp [List.eraseDups_cons]
  have given : ∀ name : Option String, isGiven name = false ↔ name.filter (· != "") = none := by
    intro name
    cases name <;> simp [isGiven]
  rw [← dups, given, given]
  unfold clauses
  cases statement.names.eraseDups with
  | nil =>
      cases statement.asName.filter (· != "") with
      | some space => simp
      | none => cases statement.defaultName.filter (· != "") <;> simp
  | cons first rest =>
      cases statement.defaultName.filter (· != "") with
      | none => simp
      | some default => cases only : statement.onlyType <;> simp

theorem Holds.merge {fit : List Char → Prop} {first second : Import} (held : first.Holds fit)
    (held' : second.Holds fit) : (first.merge second).Holds fit where
  path := held.path
  default := by
    intro name given
    unfold Import.merge at given
    dsimp only at given
    split at given
    · exact held.default name given
    · exact held'.default name given
  space := held.space
  names := by
    intro name member
    rcases List.mem_append.mp member with own | added
    · exact held.names name own
    · exact held'.names name added

theorem Printable.merge {first second : Import} (printable : first.Printable)
    (printable' : second.Printable) : (first.merge second).Printable where
  unbroken := printable.unbroken.merge printable'.unbroken
  start := printable.start
  binds := by
    intro nothing
    apply printable.binds
    rcases (clauses_eq_nil _).mp nothing with ⟨names, space, default⟩
    refine (clauses_eq_nil _).mpr ⟨(List.append_eq_nil_iff.mp names).1, space, ?_⟩
    unfold Import.merge at default
    dsimp only at default
    split at default
    · exact default
    · rename_i absent
      simpa using absent

end Import

namespace ImportEntry

def Holds (fit : List Char → Prop) : ImportEntry → Prop
  | item statement => statement.Holds fit
  | verbatim text => fit text.toList

def Printable : ImportEntry → Prop
  | item statement => statement.Printable
  | verbatim text => ImportText.IsStatement text.toList

def lines : ImportEntry → List (List Char)
  | item statement => statement.printed
  | verbatim text => [text.toList]

theorem lines_ne_nil (entry : ImportEntry) : entry.lines ≠ [] := by
  cases entry with
  | verbatim text => exact List.cons_ne_nil _ _
  | item statement => exact statement.printed_ne_nil

theorem text_eq_lines (entry : ImportEntry) :
    entry.text.toList = ['\n'].intercalate entry.lines := by
  cases entry with
  | item statement => exact statement.text_eq_printed
  | verbatim text => exact List.intercalate_singleton.symm

theorem Printable.isStatement {entry : ImportEntry} (printable : entry.Printable) {line : List Char}
    (member : line ∈ entry.lines) : ImportText.IsStatement line := by
  cases entry with
  | item statement => exact Import.Printable.isStatement printable member
  | verbatim text => exact List.mem_singleton.mp member ▸ printable

theorem Holds.line {fit : List Char → Prop} (framed : Import.Framed fit) {entry : ImportEntry}
    (held : entry.Holds fit) {line : List Char} (member : line ∈ entry.lines) : fit line := by
  cases entry with
  | item statement => exact framed.printed held member
  | verbatim text => exact List.mem_singleton.mp member ▸ held

/-- What reading a line brings in is fit if the line is, and whatever its words hold. -/
theorem holds_parse {fit : List Char → Prop} {line : List Char} (whole : fit line)
    (parts : ∀ part, part <:+: [' '].intercalate (Text.words line) → fit part) :
    (parse line).Holds fit := by
  unfold parse
  split
  · rename_i statement read
    exact (ImportText.readsFrom_statement? _ _ read).2.mono parts
  · simpa [Holds] using whole

theorem lacks_parse {part line : List Char} (solid : part ≠ []) (unblank : ' ' ∉ part)
    (lacks : ¬ part <:+: line) : (parse line).Holds fun text => ¬ part <:+: text := by
  apply holds_parse lacks
  intro text inside held
  exact lacks (Text.infix_of_infix_words unblank solid (held.trans inside))

theorem printable_parse {line : List Char} (statement : ImportText.IsStatement line) :
    (parse line).Printable := by
  have unbroken : (parse line).Holds Text.Unbroken := by
    apply holds_parse statement.unbroken
    intro part inside c member
    rcases Text.mem_of_mem_words (inside.subset member) with rfl | held
    · decide
    · exact statement.unbroken c held
  unfold parse at *
  split at unbroken
  · rename_i read
    have quotable := (ImportText.readsFrom_statement? _ _ read).1
    refine ⟨unbroken, ?_, fun _ => ImportText.isComplete_of_quotable quotable⟩
    rcases List.exists_cons_of_ne_nil quotable.1 with ⟨first, rest, shape⟩
    exact ⟨first, rest, shape, quotable.2 first (by simp [shape])⟩
  · simpa [Printable] using statement

end ImportEntry

section Merge

variable {fit : ImportEntry → Prop}

theorem addImport_forall
    (merged : ∀ a b, fit (.item a) → fit (.item b) → a.merges b = true → fit (.item (a.merge b)))
    {statement : Import} {entries : List ImportEntry} (new : fit (.item statement))
    (all : ∀ entry ∈ entries, fit entry) : ∀ entry ∈ addImport statement entries, fit entry := by
  induction entries with
  | nil => simpa [addImport] using new
  | cons first rest ih =>
      have own := all first (by simp)
      have others : ∀ entry ∈ rest, fit entry := fun entry member => all entry (by simp [member])
      cases first with
      | verbatim text =>
          rw [addImport]
          exact List.forall_mem_cons.mpr ⟨own, ih others⟩
      | item current =>
          rw [addImport]
          split
          · rename_i alike
            exact List.forall_mem_cons.mpr ⟨merged current statement own new alike, others⟩
          · exact List.forall_mem_cons.mpr ⟨own, ih others⟩

theorem addEntry_forall
    (merged : ∀ a b, fit (.item a) → fit (.item b) → a.merges b = true → fit (.item (a.merge b)))
    {entry : ImportEntry} {entries : List ImportEntry} (new : fit entry)
    (all : ∀ entry ∈ entries, fit entry) : ∀ other ∈ addEntry entries entry, fit other := by
  cases entry with
  | item statement => exact addImport_forall merged new all
  | verbatim text =>
      rw [addEntry]
      split
      · exact all
      · intro other member
        rcases List.mem_append.mp member with old | added
        · exact all other old
        · exact List.mem_singleton.mp added ▸ new

theorem mergeImports_induction {motive : List ImportEntry → List ImportEntry → Prop}
    (existing incoming : List ImportEntry) (start : motive [] [])
    (step : ∀ done entry found, entry ∈ existing ++ incoming → motive done found →
      motive (done ++ [entry]) (addEntry found entry)) :
    motive (existing ++ incoming) (mergeImports existing incoming) := by
  unfold mergeImports
  generalize existing ++ incoming = entries at step
  induction entries using List.reverseRecOn with
  | nil => exact start
  | append_singleton done entry ih =>
      rw [List.foldl_append, List.foldl_cons, List.foldl_nil]
      apply step done entry _ (by simp)
      exact ih fun earlier other found member => step earlier other found (by simp [member])

theorem mergeImports_forall
    (merged : ∀ a b, fit (.item a) → fit (.item b) → a.merges b = true → fit (.item (a.merge b)))
    {existing incoming : List ImportEntry} (before : ∀ entry ∈ existing, fit entry)
    (added : ∀ entry ∈ incoming, fit entry) :
    ∀ entry ∈ mergeImports existing incoming, fit entry := by
  have every : ∀ entry ∈ existing ++ incoming, fit entry := by
    intro entry member
    rcases List.mem_append.mp member with old | new
    · exact before entry old
    · exact added entry new
  exact mergeImports_induction (motive := fun _ found => ∀ entry ∈ found, fit entry)
    existing incoming
    (by simp) fun _ entry _ member all => addEntry_forall merged (every entry member) all

end Merge

theorem importsText_eq_lines (entries : List ImportEntry) :
    (importsText entries).toList = ['\n'].intercalate (entries.flatMap ImportEntry.lines) := by
  unfold importsText
  rw [String.toList_intercalate]
  induction entries with
  | nil => rfl
  | cons first rest ih =>
      by_cases more : rest = []
      · simp [more, ImportEntry.text_eq_lines]
      · have still : rest.flatMap ImportEntry.lines ≠ [] := by
          rcases List.exists_cons_of_ne_nil more with ⟨second, others, rfl⟩
          simp [second.lines_ne_nil]
        rw [List.map_cons, List.map_cons, List.intercalate_cons_of_ne_nil (by simpa using more), ih,
          ImportEntry.text_eq_lines, List.flatMap_cons,
          Text.join_append _ first.lines_ne_nil still]
        rfl

theorem statementsIn_of_isStatement {lines : List (List Char)}
    (statements : ∀ line ∈ lines, ImportText.IsStatement line) :
    ImportText.statementsIn lines = lines ∧ ImportText.plainIn lines = [] := by
  unfold ImportText.statementsIn ImportText.plainIn
  induction lines with
  | nil => exact ⟨rfl, rfl⟩
  | cons line rest ih =>
      have own := statements line (by simp)
      have later := ih fun other member => statements other (by simp [member])
      simp [own.trimmed, own.opens, later]

theorem isStatement_of_mem_lines {entries : List ImportEntry}
    (printable : ∀ entry ∈ entries, entry.Printable) :
    ∀ line ∈ entries.flatMap ImportEntry.lines, ImportText.IsStatement line := by
  intro line member
  rcases List.mem_flatMap.mp member with ⟨entry, held, inside⟩
  exact (printable entry held).isStatement inside

end TypedClient

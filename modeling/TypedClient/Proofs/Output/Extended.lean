import TypedClient.Output.Files
import TypedClient.Proofs.Import.Merging

namespace TypedClient

/-- The lines that open no import, without the empty ones at both ends. -/
def bodyLines (code : String) : List (List Char) := Text.trimWhere List.isEmpty (plainLines code)

def mergedWith (content : String) (incoming : List ImportEntry) : List ImportEntry :=
  mergeImports (splitSource content).imports incoming

def block {α : Type} (items : List α) : List (List α) := if items.isEmpty then [] else [items]

theorem eq_of_mem_block {α : Type} {items found : List α} (member : found ∈ block items) :
    found = items := by
  unfold block at member
  split at member
  · cases member
  · exact List.mem_singleton.mp member

theorem block_of_mem {α : Type} {items : List α} {item : α} (member : item ∈ items) :
    block items = [items] := by
  unfold block
  rw [if_neg (by simpa using List.ne_nil_of_mem member)]

theorem mem_join_blocks {line : List Char} {blocks : List (List (List Char))}
    (member : line ∈ [[]].intercalate blocks) : line = [] ∨ ∃ lines ∈ blocks, line ∈ lines := by
  induction blocks with
  | nil => cases member
  | cons first rest ih =>
      by_cases more : rest = []
      · rw [more, List.intercalate_singleton] at member
        exact .inr ⟨first, by simp, member⟩
      · rw [List.intercalate_cons_of_ne_nil more, List.mem_append, List.mem_append] at member
        rcases member with (own | gap) | later
        · exact .inr ⟨first, by simp, own⟩
        · exact .inl (List.mem_singleton.mp gap)
        · rcases ih later with empty | ⟨lines, held, inside⟩
          · exact .inl empty
          · exact .inr ⟨lines, by simp [held], inside⟩

theorem mem_join_of_mem {line : List Char} {blocks : List (List (List Char))}
    {lines : List (List Char)} (held : lines ∈ blocks) (member : line ∈ lines) :
    line ∈ [[]].intercalate blocks := by
  induction blocks with
  | nil => cases held
  | cons first rest ih =>
      by_cases more : rest = []
      · rw [more, List.intercalate_singleton]
        rw [more, List.mem_singleton] at held
        exact held ▸ member
      · rw [List.intercalate_cons_of_ne_nil more]
        rcases List.mem_cons.mp held with rfl | later
        · simp [member]
        · simp [ih later]

section Extended

variable {content code : String} {incoming : List ImportEntry}

theorem subset_bodyLines : bodyLines content ⊆ plainLines content :=
  Text.trimWhere_subset _ _

theorem tight_bodyLines (content : String) : Text.Tight List.isEmpty (bodyLines content) :=
  Text.tight_trimWhere _ _

theorem plain_of_mem_bodyLines {line : List Char} (member : line ∈ bodyLines content) :
    ImportText.opens (Text.trim line) = false := by
  simpa using (List.mem_filter.mp (subset_bodyLines member)).2

theorem unbroken_of_mem_bodyLines {line : List Char} (member : line ∈ bodyLines content) :
    Text.Unbroken line :=
  Text.unbroken_of_mem_lines (List.mem_filter.mp (subset_bodyLines member)).1

theorem lines_importsText {entries : List ImportEntry} (given : entries ≠ [])
    (printable : ∀ entry ∈ entries, entry.Printable) :
    Text.lines ((importsText entries).toList ++ ['\n']) = entries.flatMap ImportEntry.lines := by
  rw [importsText_eq_lines]
  apply Text.lines_join
  · rcases List.exists_cons_of_ne_nil given with ⟨first, rest, rfl⟩
    simp [first.lines_ne_nil]
  · exact fun line member => (isStatement_of_mem_lines printable line member).unbroken

theorem trimBreaks_body (whole : WholeStatements content) :
    trimBreaks (['\n'].intercalate (splitSource content).others) =
      ['\n'].intercalate (bodyLines content) := by
  rw [splitSource_of_whole whole]
  apply Text.trimWhere_join
  intro line member
  exact (Text.unbroken_of_mem_lines (List.mem_filter.mp member).1).no_feed

theorem join_eq_nil_of_tight {lines : List (List Char)} (tight : Text.Tight List.isEmpty lines) :
    ['\n'].intercalate lines = [] ↔ lines = [] := by
  constructor
  · intro nothing
    cases lines with
    | nil => rfl
    | cons first rest =>
        have solid : first.isEmpty = false := tight.1 first rfl
        cases first with
        | nil => cases solid
        | cons c more => cases rest <;> simp [List.intercalate_cons_cons] at nothing
  · rintro rfl
    rfl

theorem toList_extendSource (content code : String) (incoming : List ImportEntry) :
    (extendSource content incoming code).toList =
      ['\n', '\n'].intercalate
        ((block (mergedWith content incoming)).map (fun merged => (importsText merged).toList) ++
          block (trimBreaks (['\n'].intercalate (splitSource content).others)) ++
          [trimBreaks code.toList]) ++ ['\n'] := by
  unfold extendSource block mergedWith
  dsimp only
  rw [String.toList_append, String.toList_intercalate]
  congr 2
  split <;> split <;> simp

theorem lines_extendSource (whole : WholeStatements content)
    (printable : ∀ entry ∈ mergedWith content incoming, entry.Printable) :
    Text.lines (extendSource content incoming code).toList =
      [[]].intercalate (block ((mergedWith content incoming).flatMap ImportEntry.lines) ++
        block (bodyLines content) ++ [Text.lines (trimBreaks code.toList ++ ['\n'])]) := by
  have apart := Text.lines_intercalate 1 (List.append_ne_nil_of_right_ne_nil
    ((block (mergedWith content incoming)).map (fun merged => (importsText merged).toList) ++
      block (['\n'].intercalate (bodyLines content)))
        (List.cons_ne_nil (trimBreaks code.toList) []))
  rw [toList_extendSource, trimBreaks_body whole]
  refine apart.trans ?_
  rw [List.map_append, List.map_append]
  have statements : ((block (mergedWith content incoming)).map
      (fun merged => (importsText merged).toList)).map (fun text => Text.lines (text ++ ['\n'])) =
      block ((mergedWith content incoming).flatMap ImportEntry.lines) := by
    by_cases empty : mergedWith content incoming = []
    · simp [block, empty]
    · have given : (mergedWith content incoming).flatMap ImportEntry.lines ≠ [] := by
        rcases List.exists_cons_of_ne_nil empty with ⟨first, rest, shape⟩
        simp [shape, first.lines_ne_nil]
      simp [block, empty, given, lines_importsText empty printable]
  have body : (block (['\n'].intercalate (bodyLines content))).map
      (fun text => Text.lines (text ++ ['\n'])) = block (bodyLines content) := by
    have nothing := join_eq_nil_of_tight (tight_bodyLines content)
    by_cases empty : bodyLines content = []
    · simp [block, empty]
    · have given : ['\n'].intercalate (bodyLines content) ≠ [] :=
        fun none => empty (nothing.mp none)
      have joined := Text.lines_join empty fun line member => unbroken_of_mem_bodyLines member
      simp [block, empty, given, joined]
  rw [statements, body]
  rfl

open ImportText in
theorem statementsIn_join (blocks : List (List (List Char))) :
    statementsIn ([[]].intercalate blocks) = blocks.flatMap statementsIn := by
  unfold statementsIn
  induction blocks with
  | nil => rfl
  | cons first rest ih =>
      by_cases more : rest = []
      · simp [more]
      · rw [List.intercalate_cons_of_ne_nil more, List.map_append, List.map_append,
          List.filter_append, List.filter_append, ih, List.flatMap_cons]
        simp [Text.trim, Text.trimWhere, Text.dropTrailing, opens, after?]

open ImportText in
theorem plainIn_join (blocks : List (List (List Char))) :
    plainIn ([[]].intercalate blocks) = [[]].intercalate (blocks.map plainIn) := by
  unfold plainIn
  induction blocks with
  | nil => rfl
  | cons first rest ih =>
      by_cases more : rest = []
      · simp [more]
      · rw [List.intercalate_cons_of_ne_nil more, List.filter_append, List.filter_append, ih,
          List.map_cons, List.intercalate_cons_of_ne_nil (by simpa using more)]
        rfl

/-- Lines that open nothing hold no statement. -/
theorem statementsIn_of_plain {lines : List (List Char)}
    (plain : ∀ line ∈ lines, ImportText.opens (Text.trim line) = false) :
    ImportText.statementsIn lines = [] ∧ ImportText.plainIn lines = lines := by
  unfold ImportText.statementsIn ImportText.plainIn
  constructor
  · simpa using plain
  · simpa using plain

theorem mem_lines_trimBreaks {text line : List Char}
    (member : line ∈ Text.lines (trimBreaks text ++ ['\n'])) :
    line = [] ∨ line ∈ Text.lines text := by
  rcases Text.exists_trimWhere isBreak text with ⟨front, back, before, after, whole⟩
  have feeds : front = List.replicate front.length '\n' :=
    List.eq_replicate_of_mem fun c held => beq_iff_eq.mp (before c held)
  have within : line = [] ∨ line ∈ Text.lines (trimBreaks text ++ back) := by
    cases back with
    | nil => simpa using Text.mem_lines_append_feed member
    | cons c rest =>
        have feed : c = '\n' := beq_iff_eq.mp (after c (by simp))
        rw [feed, Text.lines_append]
        simp [member]
  refine within.imp_right fun held => ?_
  have whole' : text = List.replicate front.length '\n' ++ (trimBreaks text ++ back) := by
    rw [← feeds, ← List.append_assoc]
    exact whole
  rw [whole', Text.lines_feeds_append]
  exact List.mem_append_right _ held

theorem plain_of_statementLines_nil {line : List Char} (plain : statementLines code = [])
    (member : line ∈ Text.lines (trimBreaks code.toList ++ ['\n'])) :
    ImportText.opens (Text.trim line) = false := by
  rcases mem_lines_trimBreaks member with rfl | held
  · rfl
  · have shut := List.filter_eq_nil_iff.mp plain _ (List.mem_map_of_mem held)
    exact Bool.eq_false_iff.mpr shut

theorem statementsIn_extendSource (whole : WholeStatements content)
    (printable : ∀ entry ∈ mergedWith content incoming, entry.Printable)
    (plain : statementLines code = []) :
    statementLines (extendSource content incoming code) =
      (mergedWith content incoming).flatMap ImportEntry.lines := by
  have statements := isStatement_of_mem_lines printable
  have body : ∀ line ∈ bodyLines content, ImportText.opens (Text.trim line) = false :=
    fun line member => plain_of_mem_bodyLines member
  have added := (statementsIn_of_plain fun line => plain_of_statementLines_nil plain).1
  unfold statementLines
  rw [lines_extendSource whole printable, statementsIn_join, List.flatMap_append,
    List.flatMap_append]
  unfold block
  split <;> split <;>
    simp_all [statementsIn_of_isStatement statements, statementsIn_of_plain body]

/-- The body of the extended source is the body that was there, and the new function. -/
theorem bodyLines_extendSource (whole : WholeStatements content)
    (printable : ∀ entry ∈ mergedWith content incoming, entry.Printable)
    (plain : statementLines code = [])
    (given : Text.lines (trimBreaks code.toList ++ ['\n']) ≠ [])
    (tight : Text.Tight List.isEmpty (Text.lines (trimBreaks code.toList ++ ['\n']))) :
    bodyLines (extendSource content incoming code) =
      [[]].intercalate (block (bodyLines content) ++
        [Text.lines (trimBreaks code.toList ++ ['\n'])]) := by
  have statements := isStatement_of_mem_lines printable
  have body : ∀ line ∈ bodyLines content, ImportText.opens (Text.trim line) = false :=
    fun line member => plain_of_mem_bodyLines member
  have added := (statementsIn_of_plain fun line => plain_of_statementLines_nil plain).2
  have kept : (block (bodyLines content)).map ImportText.plainIn = block (bodyLines content) := by
    unfold block
    split
    · rfl
    · simp [statementsIn_of_plain body]
  have core : Text.Tight List.isEmpty ([[]].intercalate (block (bodyLines content) ++
      [Text.lines (trimBreaks code.toList ++ ['\n'])])) := by
    by_cases empty : bodyLines content = []
    · simpa [block, empty] using tight
    · have joined := (tight_bodyLines content).append empty given tight [[]]
      simpa [block, empty, List.intercalate_cons_cons] using joined
  unfold bodyLines plainLines
  rw [lines_extendSource whole printable, plainIn_join, List.map_append, List.map_append, kept,
    List.map_singleton, added]
  by_cases none_left : (mergedWith content incoming).flatMap ImportEntry.lines = []
  · rw [none_left]
    exact Text.trimWhere_of_tight core
  · have gone : (block ((mergedWith content incoming).flatMap ImportEntry.lines)).map
        ImportText.plainIn = [[]] := by
      simp [block, none_left, (statementsIn_of_isStatement statements).2]
    rw [gone, List.append_assoc, List.singleton_append, List.intercalate_cons_of_ne_nil (by simp),
      List.nil_append]
    have edge : ∀ line ∈ [([] : List Char)], line.isEmpty = true := by simp
    have trimmed := Text.trimWhere_append edge core (List.forall_mem_nil _)
    rwa [List.append_nil] at trimmed

end Extended

end TypedClient

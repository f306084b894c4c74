import TypedClient.Proofs.Output.ApiImports
import TypedClient.Proofs.Workspace

namespace TypedClient

/-- One call of the writer of functions. -/
structure FileCall where
  api : Api
  modelDir : String := ""
  queryDir : String := ""
  options : WriteOptions := {}

namespace FileCall

def write (path : String) (call : FileCall) : Work Bool :=
  writeApiFile call.api path call.modelDir call.queryDir call.options

def imports (directory : Place) (path : String) (call : FileCall) :
    Except Error (List ImportEntry) :=
  apiImports directory call.api path call.modelDir call.queryDir call.options

def built (directory : Place) (path : String) (call : FileCall) : Except Error (List Import) :=
  ownImports directory call.api path call.modelDir call.queryDir call.options

/-- The lines of the function, without the empty ones at both ends. -/
def lines (call : FileCall) : List (List Char) := Text.lines (trimBreaks call.api.sourceCode.toList)

end FileCall

theorem statementLines_reread (text : String) :
    statementLines (reread text) = statementLines text := by
  rw [statementLines, lines_reread, statementLines]

theorem bodyLines_reread (text : String) : bodyLines (reread text) = bodyLines text := by
  rw [bodyLines, plainLines, lines_reread, bodyLines, plainLines]

/-- What one call of the writer does: nothing, or it saves the file with the function. -/
theorem yields_write {path : String} {call : FileCall} {before after : Workspace} {written : Bool}
    (ran : Yields (call.write path) before written after) :
    (written = false ∧ after = before ∧
      (call.api.sourceCode = "" ∨ ∃ content, Yields (Work.fileText path) before content before ∧
        containsText call.api.mark content = true)) ∨
    (written = true ∧ call.api.sourceCode ≠ "" ∧
      ∃ content imports, Yields (Work.fileText path) before content before ∧
        containsText call.api.mark content = false ∧
        call.imports before.directory path = .ok imports ∧
        Yields (Work.saveFile path (extendSource content imports call.api.sourceCode)) before ()
          after) := by
  unfold FileCall.write writeApiFile at ran
  split at ran
  · rename_i none_given
    rcases (yields_pure _ _ _ _).mp ran with ⟨rfl, rfl⟩
    exact .inl ⟨rfl, rfl, .inl (beq_iff_eq.mp none_given)⟩
  · rename_i given
    rcases (yields_bind _ _ _ _ _).mp ran with ⟨content, between, reads, checks⟩
    rcases Work.yields_fileText_iff.mp reads with ⟨rfl, -⟩
    split at checks
    · rename_i marked
      rcases (yields_pure _ _ _ _).mp checks with ⟨rfl, rfl⟩
      exact .inl ⟨rfl, rfl, .inr ⟨content, reads, marked⟩⟩
    · rename_i absent
      rcases (yields_bind _ _ _ _ _).mp checks with ⟨workspace, _, got, imports⟩
      rcases (yields_get _ _ _).mp got with ⟨rfl, rfl⟩
      rcases (yields_bind _ _ _ _ _).mp imports with ⟨entries, _, lifted, saves⟩
      rcases (yields_liftExcept _ _ _ _).mp lifted with ⟨made, rfl⟩
      rcases (yields_bind _ _ _ _ _).mp saves with ⟨_, finished, saved, ends⟩
      rcases (yields_pure _ _ _ _).mp ends with ⟨rfl, rfl⟩
      exact .inr ⟨rfl, by simpa using given, content, entries, reads,
        Bool.eq_false_iff.mpr absent, made, saved⟩

/-- A call without a text, or whose mark is there already, leaves everything as it is. -/
theorem yields_write_false {path : String} {call : FileCall} {workspace : Workspace}
    (settled : call.api.sourceCode = "" ∨
      ∃ content, Yields (Work.fileText path) workspace content workspace ∧
        containsText call.api.mark content = true) :
    Yields (call.write path) workspace false workspace := by
  unfold FileCall.write writeApiFile
  split
  · exact (yields_pure _ _ _ _).mpr ⟨rfl, rfl⟩
  · rename_i given
    obtain ⟨content, found, marked⟩ := settled.resolve_left (by simpa using given)
    refine (yields_bind _ _ _ _ _).mpr ⟨content, workspace, found, ?_⟩
    rw [if_pos marked]
    exact (yields_pure _ _ _ _).mpr ⟨rfl, rfl⟩

/-- A call with a text whose mark is not there saves the file. -/
theorem yields_write_true {path content : String} {call : FileCall} {imports : List ImportEntry}
    {before after : Workspace} (given : call.api.sourceCode ≠ "")
    (found : Yields (Work.fileText path) before content before)
    (absent : containsText call.api.mark content = false)
    (made : call.imports before.directory path = .ok imports)
    (saved : Yields (Work.saveFile path (extendSource content imports call.api.sourceCode))
      before () after) :
    Yields (call.write path) before true after := by
  unfold FileCall.write writeApiFile
  rw [if_neg (by simpa using given)]
  refine found.bind ?_
  rw [if_neg (by simp [absent])]
  refine (yields_bind _ _ _ _ _).mpr ⟨before, before, (yields_get _ _ _).mpr ⟨rfl, rfl⟩, ?_⟩
  refine (yields_bind _ _ _ _ _).mpr
    ⟨imports, before, (yields_liftExcept _ _ _ _).mpr ⟨made, rfl⟩, ?_⟩
  exact saved.bind ((yields_pure _ _ _ _).mpr ⟨rfl, rfl⟩)

theorem write_cases {path : String} {call : FileCall} {before after : Workspace} {written : Bool}
    {content : String} (found : Yields (Work.fileText path) before content before)
    (ran : Yields (call.write path) before written after) :
    (written = false ∧ after = before ∧
      (call.api.sourceCode = "" ∨ containsText call.api.mark content = true)) ∨
    (written = true ∧ call.api.sourceCode ≠ "" ∧ containsText call.api.mark content = false ∧
      ∃ imports, call.imports before.directory path = .ok imports ∧
        after.directory = before.directory ∧
        Yields (Work.fileText path) after
          (reread (extendSource content imports call.api.sourceCode)) after) := by
  rcases yields_write ran with ⟨rfl, rfl, none_given | ⟨read, reads, marked⟩⟩ |
    ⟨rfl, given, read, imports, reads, absent, made, saved⟩
  · exact .inl ⟨rfl, rfl, .inl none_given⟩
  · rcases found.unique reads with ⟨rfl, -⟩
    exact .inl ⟨rfl, rfl, .inr marked⟩
  · rcases found.unique reads with ⟨rfl, -⟩
    exact .inr ⟨rfl, given, absent, imports, made, (Work.saved_of_yields saved).directory,
      Work.yields_fileText_of_saveFile saved⟩

theorem CleanStatements.reread {text : String} (clean : CleanStatements text) :
    CleanStatements (reread text) := by
  unfold CleanStatements
  rwa [statementLines_reread]

section Marks

variable {content : String} {part : List Char}

theorem infix_iff_body (clean : CleanStatements content) (marked : markStart <:+: part)
    (whole : Text.Unbroken part) :
    part <:+: content.toList ↔ ∃ line ∈ bodyLines content, part <:+: line := by
  have solid : part ≠ [] := by
    rintro rfl
    exact absurd (List.infix_nil.mp marked) (by decide)
  rw [Text.infix_lines whole solid]
  constructor
  · rintro ⟨line, member, inside⟩
    have plain : line ∈ plainLines content := by
      apply List.mem_filter.mpr ⟨member, ?_⟩
      rw [Bool.not_eq_true', Bool.eq_false_iff]
      intro opened
      have listed : Text.trim line ∈ statementLines content :=
        List.mem_filter.mpr ⟨List.mem_map_of_mem member, opened⟩
      have unblank : markStart.all (!Text.isBlank ·) = true := by decide
      refine (clean _ listed).unmarked (Text.infix_trimWhere_of_apart (by decide) ?_
        (marked.trans inside))
      intro c held
      simpa using List.all_eq_true.mp unblank c held
    rcases Text.exists_trimWhere List.isEmpty (plainLines content) with
      ⟨front, back, before, after, shape⟩
    have given : line.isEmpty = false := by
      rw [List.isEmpty_eq_false_iff]
      rintro rfl
      exact solid (List.infix_nil.mp inside)
    refine ⟨line, ?_, inside⟩
    rw [shape, List.mem_append, List.mem_append] at plain
    rcases plain with (edge | body) | edge
    · rw [before line edge] at given
      cases given
    · exact body
    · rw [after line edge] at given
      cases given
  · rintro ⟨line, member, inside⟩
    exact ⟨line, (List.mem_filter.mp (subset_bodyLines member)).1, inside⟩

theorem mark_starts (api : Api) : markStart <+: api.mark.toList := by
  unfold Api.mark operationMark
  simp only [String.toList_append, List.append_assoc]
  exact List.prefix_append _ _

theorem infix_mark (api : Api) : markStart <:+: api.mark.toList := (mark_starts api).isInfix

end Marks

namespace FileCall

/-- A call whose function stays apart from the statements of the file and carries its mark. -/
structure IsMarked (directory : Place) (path : String) (call : FileCall) : Prop where
  marked : containsText call.api.mark call.api.sourceCode = true
  feeds : ∀ c ∈ call.api.sourceCode.toList, Text.isLineBreak c = true → c = '\n'
  plain : statementLines call.api.sourceCode = []
  configured : ∀ setting ∈ call.options.imports, ∀ text, setting.toText = .ok text →
    CleanStatements text
  unmarked : ∀ own, call.built directory path = .ok own → ∀ statement ∈ own,
    Unmarked statement.text.toList

/-- A call whose mark and whose built imports stay each on one line. -/
structure StaysOnLines (directory : Place) (path : String) (call : FileCall) : Prop where
  mark : '\n' ∉ call.api.mark.toList
  built : ∀ own, call.built directory path = .ok own → ∀ statement ∈ own,
    Text.Unbroken statement.text.toList ∧ ImportText.isComplete statement.text.toList = true

section Added

variable {directory : Place} {path content : String} {call : FileCall} {imports : List ImportEntry}

theorem IsMarked.unbroken_mark (fits : call.IsMarked directory path)
    (stays : call.StaysOnLines directory path) : Text.Unbroken call.api.mark.toList := by
  intro c member
  rw [Bool.eq_false_iff]
  intro breaks
  have inside := ((Text.contains_iff _ _).mp fits.marked).subset member
  have feed := fits.feeds c inside breaks
  exact stays.mark (feed ▸ member)

theorem IsMarked.infix_trimmed (fits : call.IsMarked directory path)
    (stays : call.StaysOnLines directory path) :
    call.api.mark.toList <:+: trimBreaks call.api.sourceCode.toList := by
  refine Text.infix_trimWhere_of_apart ?_ ?_ ((Text.contains_iff _ _).mp fits.marked)
  · intro nothing
    have start := infix_mark call.api
    rw [nothing, List.infix_nil] at start
    exact absurd start (by decide)
  · intro c member
    rw [isBreak, beq_eq_false_iff_ne]
    rintro rfl
    exact stays.mark member

theorem IsMarked.trimmed_ne_nil (fits : call.IsMarked directory path)
    (stays : call.StaysOnLines directory path) : trimBreaks call.api.sourceCode.toList ≠ [] := by
  intro nothing
  have inside := (infix_mark call.api).trans (fits.infix_trimmed stays)
  rw [nothing, List.infix_nil] at inside
  exact absurd inside (by decide)

theorem IsMarked.tight_trimmed (fits : call.IsMarked directory path) :
    Text.Tight Text.isLineBreak (trimBreaks call.api.sourceCode.toList) := by
  have tight : Text.Tight isBreak (trimBreaks call.api.sourceCode.toList) :=
    Text.tight_trimWhere _ _
  have stays : ∀ c ∈ trimBreaks call.api.sourceCode.toList, isBreak c = false →
      Text.isLineBreak c = false := by
    intro c member other
    rw [Bool.eq_false_iff]
    intro breaks
    rw [fits.feeds c (Text.trimWhere_subset _ _ member) breaks] at other
    cases other
  exact ⟨fun c first => stays c (List.mem_of_mem_head? first) (tight.1 c first),
    fun c last => stays c (List.mem_of_mem_getLast? last) (tight.2 c last)⟩

theorem IsMarked.lines_eq (fits : call.IsMarked directory path)
    (stays : call.StaysOnLines directory path) :
    Text.lines (trimBreaks call.api.sourceCode.toList ++ ['\n']) = call.lines :=
  Text.lines_append_feed_of_ended (fits.trimmed_ne_nil stays) fits.tight_trimmed.2

theorem IsMarked.isClean_imports (fits : call.IsMarked directory path)
    (stays : call.StaysOnLines directory path) (made : call.imports directory path = .ok imports) :
    ∀ entry ∈ imports, entry.IsClean := by
  refine isClean_apiImports fits.configured ?_ made
  intro own built statement member
  have lines := stays.built own built statement member
  exact ⟨lines.1, lines.2, fits.unmarked own built statement member⟩

/-- One added function: the statements stay clean, and the body is longer by its lines. -/
theorem IsMarked.added (fits : call.IsMarked directory path)
    (stays : call.StaysOnLines directory path) (clean : CleanStatements content)
    (made : call.imports directory path = .ok imports) :
    CleanStatements (reread (extendSource content imports call.api.sourceCode)) ∧
      bodyLines (reread (extendSource content imports call.api.sourceCode)) =
        [[]].intercalate (block (bodyLines content) ++ [call.lines]) := by
  have entries := isClean_mergedWith clean (fits.isClean_imports stays made)
  have printable := fun entry member => (entries entry member).printable
  have added := fits.lines_eq stays
  constructor
  · apply CleanStatements.reread
    unfold CleanStatements
    rw [statementsIn_extendSource clean.whole printable fits.plain]
    intro line member
    rcases List.mem_flatMap.mp member with ⟨entry, held, inside⟩
    have statement := (printable entry held).isStatement inside
    exact ⟨statement.unbroken, statement.complete,
      (entries entry held).unmarked.line framed_unmarked inside⟩
  · rw [bodyLines_reread, bodyLines_extendSource clean.whole printable fits.plain, added]
    · rw [added]
      exact Text.lines_ne_nil (fits.trimmed_ne_nil stays)
    · rw [added]
      exact Text.tight_lines fits.tight_trimmed

/-- After a function is added, the file holds the marks it held and those in the function. -/
theorem IsMarked.infix_added {part : List Char} (fits : call.IsMarked directory path)
    (stays : call.StaysOnLines directory path) (clean : CleanStatements content)
    (made : call.imports directory path = .ok imports) (marked : markStart <:+: part)
    (whole : Text.Unbroken part) :
    part <:+: (reread (extendSource content imports call.api.sourceCode)).toList ↔
      part <:+: content.toList ∨ part <:+: call.api.sourceCode.toList := by
  have solid : part ≠ [] := by
    rintro rfl
    exact absurd (List.infix_nil.mp marked) (by decide)
  have source : part <:+: call.api.sourceCode.toList ↔ ∃ line ∈ call.lines, part <:+: line := by
    rw [lines, ← Text.infix_lines whole solid]
    constructor
    · apply Text.infix_trimWhere_of_apart solid
      intro c member
      rw [isBreak, beq_eq_false_iff_ne]
      rintro rfl
      exact whole.no_feed member
    · exact fun inside => inside.trans (Text.infix_trimWhere _ _)
  rcases fits.added stays clean made with ⟨clean', body⟩
  rw [infix_iff_body clean' marked whole, infix_iff_body clean marked whole, source, body]
  constructor
  · rintro ⟨line, member, inside⟩
    rcases mem_join_blocks member with rfl | ⟨lines, listed, held⟩
    · exact absurd (List.infix_nil.mp inside) solid
    · rcases List.mem_append.mp listed with old | new
      · exact .inl ⟨line, eq_of_mem_block old ▸ held, inside⟩
      · exact .inr ⟨line, List.mem_singleton.mp new ▸ held, inside⟩
  · rintro (⟨line, held, inside⟩ | ⟨line, held, inside⟩)
    · have listed : bodyLines content ∈ block (bodyLines content) ++ [call.lines] := by
        simp [block_of_mem held]
      exact ⟨line, mem_join_of_mem listed held, inside⟩
    · exact ⟨line, mem_join_of_mem (by simp) held, inside⟩

theorem IsMarked.holds_mark_iff {other : FileCall} (fits : call.IsMarked directory path)
    (stays : call.StaysOnLines directory path) (clean : CleanStatements content)
    (made : call.imports directory path = .ok imports)
    (whole : Text.Unbroken other.api.mark.toList)
    (apart : other.api.mark ≠ call.api.mark →
      containsText other.api.mark call.api.sourceCode = false) :
    containsText other.api.mark (reread (extendSource content imports call.api.sourceCode)) = true ↔
      containsText other.api.mark content = true ∨ other.api.mark = call.api.mark := by
  have source : containsText other.api.mark call.api.sourceCode = true ↔
      other.api.mark = call.api.mark := by
    constructor
    · intro inside
      by_contra differs
      rw [apart differs] at inside
      cases inside
    · intro same
      rw [same]
      exact fits.marked
  have held := fits.infix_added stays clean made (infix_mark other.api) whole
  unfold containsText at *
  rw [Text.contains_iff] at source
  rw [Text.contains_iff, Text.contains_iff, held, source]

end Added

/-- The calls that add a function: of those with a text whose mark is not in the file, the first
with every mark. -/
def accepted (content : String) (calls : List FileCall) : List FileCall :=
  (calls.filter fun call =>
    call.api.sourceCode != "" && !containsText call.api.mark content).eraseDupsBy
      fun call earlier => call.api.mark == earlier.api.mark

theorem accepted_cons_skipped {content : String} {call : FileCall} {calls : List FileCall}
    (skipped : call.api.sourceCode = "" ∨ containsText call.api.mark content = true) :
    accepted content (call :: calls) = accepted content calls := by
  unfold accepted
  rw [List.filter_cons_of_neg]
  rcases skipped with empty | held
  · simp [empty]
  · simp [held]

theorem accepted_cons_added {content content' : String} {call : FileCall} {calls : List FileCall}
    (given : call.api.sourceCode ≠ "") (absent : containsText call.api.mark content = false)
    (later : ∀ other ∈ calls, other.api.sourceCode ≠ "" →
      (containsText other.api.mark content' = true ↔
        containsText other.api.mark content = true ∨ other.api.mark = call.api.mark)) :
    accepted content (call :: calls) = call :: accepted content' calls := by
  unfold accepted
  rw [List.filter_cons_of_pos (by simp [given, absent]), List.eraseDupsBy_cons, List.filter_filter]
  congr 2
  apply List.filter_congr
  intro other member
  by_cases empty : other.api.sourceCode = ""
  · simp [empty]
  · have step := later other member empty
    by_cases same : other.api.mark = call.api.mark
    · have held := step.mpr (.inr same)
      rw [same] at held
      simp [same, held]
    · have step' : containsText other.api.mark content' = containsText other.api.mark content := by
        rw [Bool.eq_iff_iff, step]
        simp [same]
      simp [same, step']

end FileCall

def MarksApart (calls : List FileCall) : Prop :=
  ∀ call ∈ calls, ∀ other ∈ calls, call.api.sourceCode ≠ "" → other.api.sourceCode ≠ "" →
    other.api.mark ≠ call.api.mark → containsText other.api.mark call.api.sourceCode = false

/-- The body of a file to which the functions of some calls are added. -/
def bodyWith (content : String) (calls : List FileCall) : List (List Char) :=
  [[]].intercalate (block (bodyLines content) ++ calls.map FileCall.lines)

theorem bodyWith_nil (content : String) : bodyWith content [] = bodyLines content := by
  unfold bodyWith block
  split
  · rename_i empty
    simpa using (List.isEmpty_iff.mp empty).symm
  · simp

theorem bodyWith_cons {content content' : String} {call : FileCall} {calls : List FileCall}
    (given : call.lines ≠ [])
    (body : bodyLines content' = [[]].intercalate (block (bodyLines content) ++ [call.lines])) :
    bodyWith content' calls = bodyWith content (call :: calls) := by
  have filled : bodyLines content' ≠ [] := by
    rcases List.exists_mem_of_ne_nil _ given with ⟨line, member⟩
    rw [body]
    exact List.ne_nil_of_mem (mem_join_of_mem (by simp) member)
  have start : block (bodyLines content') = [bodyLines content'] := by
    simp [block, filled]
  unfold bodyWith
  rw [start, body, List.map_cons]
  cases calls with
  | nil => simp
  | cons next others =>
      have some_left : (next :: others).map FileCall.lines ≠ [] := by simp
      have joined := Text.join_append [[]]
        (List.append_ne_nil_of_right_ne_nil (block (bodyLines content))
          (List.cons_ne_nil call.lines []))
        some_left
      rw [List.append_assoc, List.singleton_append] at joined
      rw [Text.join_append _ (List.cons_ne_nil _ _) some_left, List.intercalate_singleton, joined]

theorem MarksApart.tail {call : FileCall} {calls : List FileCall}
    (apart : MarksApart (call :: calls)) :
    MarksApart calls :=
  fun first member second member' => apart first (by simp [member]) second (by simp [member'])

/-- The calls that report that they added a function. -/
def FileCall.reported (calls : List FileCall) (flags : List Bool) : List FileCall :=
  (calls.zip flags).filterMap fun call => if call.2 then some call.1 else none

/-- Calls that are made one after the other on a file with clean statements. -/
structure MarkedRun (path : String) (calls : List FileCall) (before : Workspace) (initial : String)
    (flags : List Bool) (after : Workspace) : Prop where
  start : Yields (Work.fileText path) before initial before
  ran : Yields (calls.mapM (FileCall.write path)) before flags after
  clean : CleanStatements initial
  marked : ∀ call ∈ calls, call.api.sourceCode ≠ "" → call.IsMarked before.directory path
  apart : MarksApart calls

theorem MarkedRun.keeps_code {path : String} {calls : List FileCall} {before after : Workspace}
    {flags : List Bool} {initial : String} (run : MarkedRun path calls before initial flags after)
    (stays : ∀ call ∈ calls, call.api.sourceCode ≠ "" →
      call.StaysOnLines before.directory path) :
    FileCall.reported calls flags = FileCall.accepted initial calls ∧
      ∃ final, Yields (Work.fileText path) after final after ∧
        bodyLines final = bodyWith initial (FileCall.accepted initial calls) := by
  induction calls generalizing before flags initial with
  | nil =>
      rcases (yields_mapM_nil _ _ _ _).mp run.ran with ⟨rfl, rfl⟩
      exact ⟨rfl, initial, run.start, (bodyWith_nil initial).symm⟩
  | cons call rest ih =>
      rcases (yields_mapM_cons _ _ _ _ _ _).mp run.ran with
        ⟨written, between, others, wrote, later, rfl⟩
      have marked := fun other member => run.marked other (List.mem_cons_of_mem call member)
      have stays' := fun other member => stays other (List.mem_cons_of_mem call member)
      rcases write_cases run.start wrote with
        ⟨rfl, rfl, skipped⟩ | ⟨rfl, given, absent, imports, made, directory, read⟩
      · rw [FileCall.accepted_cons_skipped skipped]
        exact ih ⟨run.start, later, run.clean, marked, run.apart.tail⟩ stays'
      · have own := run.marked call (by simp) given
        have lines := stays call (by simp) given
        rcases own.added lines run.clean made with ⟨clean, body⟩
        -- The rest of the run finds the marks that were there and that of the call.
        have marks : ∀ other ∈ rest, other.api.sourceCode ≠ "" →
            (containsText other.api.mark
              (reread (extendSource initial imports call.api.sourceCode)) =
              true ↔ containsText other.api.mark initial = true ∨
                other.api.mark = call.api.mark) := by
          intro other member given'
          have whole := (marked other member given').unbroken_mark (stays' other member given')
          exact own.holds_mark_iff lines run.clean made whole
            (run.apart call (by simp) other (by simp [member]) given given')
        have given_lines : call.lines ≠ [] := Text.lines_ne_nil (own.trimmed_ne_nil lines)
        rw [← directory] at marked stays'
        rcases ih ⟨read, later, clean, marked, run.apart.tail⟩ stays' with
          ⟨reports, final, ends, kept⟩
        rw [FileCall.accepted_cons_added given absent marks, ← bodyWith_cons given_lines body]
        refine ⟨?_, final, ends, kept⟩
        rw [← reports]
        rfl

section Instances

def plainApi (url sourceCode : String) : Api :=
  { sourceCode, funcName := "f", fileName := "f", filePath := "f.ts", method := "get", url,
    models := fun _ => pure [] }

def workspaceWith (text : String) : Workspace :=
  { disk := { files := [(["a.ts"], .text text)] } }

theorem unmarked_of_check {text : List Char} (checked : Text.contains markStart text = false) :
    Unmarked text := by
  intro marked
  rw [(Text.contains_iff _ _).mpr marked] at checked
  cases checked

theorem feeds_of_check {text : List Char}
    (checked : text.all (fun c => !Text.isLineBreak c || c == '\n') = true) :
    ∀ c ∈ text, Text.isLineBreak c = true → c = '\n' := by
  intro c member breaks
  have either := List.all_eq_true.mp checked c member
  simpa [breaks] using either

def userCall : FileCall :=
  { api := { plainApi "/u" "@UNOAPI[get:/u]" with typeNames := ["U"] }
    modelDir := "m"
    options := { imports := [.text "import 'b'"] } }

theorem isMarked_userCall : userCall.IsMarked [] "a.ts" where
  marked := by decide +kernel
  feeds := feeds_of_check (by decide +kernel)
  plain := by decide +kernel
  configured := by
    intro setting member text spelled
    rw [List.mem_singleton.mp member] at spelled
    cases spelled
    exact cleanStatements_of_check (by decide +kernel)
  unmarked := by
    intro own built statement member
    have shape : userCall.built [] "a.ts" = .ok [typeImport "./m" ["U"]] := rfl
    rw [shape] at built
    cases built
    rw [List.mem_singleton.mp member]
    exact unmarked_of_check (by decide +kernel)

theorem staysOnLines_userCall : userCall.StaysOnLines [] "a.ts" where
  mark := by decide +kernel
  built := by
    intro own built statement member
    have shape : userCall.built [] "a.ts" = .ok [typeImport "./m" ["U"]] := rfl
    rw [shape] at built
    cases built
    rw [List.mem_singleton.mp member]
    exact ⟨Text.unbroken_of_all (by decide +kernel), by decide +kernel⟩

def userText : String :=
  "import 'c'\nimport 'b'\nimport type \x7b U \x7d from './m';\n\na\n\n@UNOAPI[get:/u]\n"

theorem markedRun_userCall : MarkedRun "a.ts" [userCall, userCall] (workspaceWith "import 'c'\na")
    "import 'c'\na" [true, false] (workspaceWith userText) where
  start := yields_of_check (by decide +kernel)
  ran := yields_of_check (by decide +kernel)
  clean := cleanStatements_of_check (by decide +kernel)
  marked := by
    intro call member _
    simp only [List.mem_cons, List.not_mem_nil, or_false, or_self] at member
    exact member ▸ isMarked_userCall
  apart := by
    intro call member other member' _ _ differs
    simp only [List.mem_cons, List.not_mem_nil, or_false, or_self] at member member'
    rw [member, member'] at differs
    exact absurd rfl differs

theorem keeps_code_userCall :
    FileCall.reported [userCall, userCall] [true, false] =
        FileCall.accepted "import 'c'\na" [userCall, userCall] ∧
      ∃ final, Yields (Work.fileText "a.ts") (workspaceWith userText) final
        (workspaceWith userText) ∧
        bodyLines final =
          bodyWith "import 'c'\na" (FileCall.accepted "import 'c'\na" [userCall, userCall]) := by
  apply MarkedRun.keeps_code markedRun_userCall
  intro call member _
  simp only [List.mem_cons, List.not_mem_nil, or_false, or_self] at member
  exact member ▸ staysOnLines_userCall

def bareCall (url sourceCode : String) : FileCall := { api := plainApi url sourceCode }

theorem isMarked_bareCall {url sourceCode : String}
    (marked : containsText (plainApi url sourceCode).mark sourceCode = true)
    (feeds : sourceCode.toList.all (fun c => !Text.isLineBreak c || c == '\n') = true)
    (plain : statementLines sourceCode = []) : (bareCall url sourceCode).IsMarked [] "a.ts" where
  marked := marked
  feeds := feeds_of_check feeds
  plain := plain
  configured := by simp [bareCall]
  unmarked := by
    intro own built statement member
    have shape : (bareCall url sourceCode).built [] "a.ts" = .ok [] := rfl
    rw [shape] at built
    cases built
    cases member

/-- The mark of the second function begins in the text of the user and ends in the first. -/
def splitMarkCalls : List FileCall :=
  [bareCall "/a" "]\n@UNOAPI[get:/a]", bareCall "/b\n\n" "@UNOAPI[get:/b\n\n]"]

def splitMarkText : String := "@UNOAPI[get:/b\n\n]\n@UNOAPI[get:/a]\n"

theorem markedRun_splitMark : MarkedRun "a.ts" splitMarkCalls (workspaceWith "@UNOAPI[get:/b")
    "@UNOAPI[get:/b" [true, false] (workspaceWith splitMarkText) where
  start := yields_of_check (by decide +kernel)
  ran := yields_of_check (by decide +kernel)
  clean := cleanStatements_of_check (by decide +kernel)
  marked := by
    intro call member _
    simp only [splitMarkCalls, List.mem_cons, List.not_mem_nil, or_false] at member
    rcases member with rfl | rfl
    · exact isMarked_bareCall (by decide +kernel) (by decide +kernel) (by decide +kernel)
    · exact isMarked_bareCall (by decide +kernel) (by decide +kernel) (by decide +kernel)
  apart := by
    intro call member other member' _ _ differs
    simp only [splitMarkCalls, List.mem_cons, List.not_mem_nil, or_false] at member member'
    rcases member with rfl | rfl <;> rcases member' with rfl | rfl
    · exact absurd rfl differs
    · decide +kernel
    · decide +kernel
    · exact absurd rfl differs

/-- A function whose built import breaks behind what looks like its end. -/
def splitPathCall : FileCall :=
  { api := { plainApi "/u" "@UNOAPI[get:/u]" with typeNames := ["U"] }
    modelDir := "m'\nx" }

def splitPathText : String :=
  "import type \x7b U \x7d from './m'\nx';\n\n@UNOAPI[get:/u]\n"

theorem isMarked_splitPath : splitPathCall.IsMarked [] "a.ts" where
  marked := by decide +kernel
  feeds := feeds_of_check (by decide +kernel)
  plain := by decide +kernel
  configured := by simp [splitPathCall]
  unmarked := by
    intro own built statement member
    have shape : splitPathCall.built [] "a.ts" = .ok [typeImport "./m'\nx" ["U"]] := rfl
    rw [shape] at built
    cases built
    rw [List.mem_singleton.mp member]
    exact unmarked_of_check (by decide +kernel)

theorem markedRun_splitPath : MarkedRun "a.ts" [splitPathCall] {} "" [true]
    (workspaceWith splitPathText) where
  start := yields_of_check (by decide +kernel)
  ran := yields_of_check (by decide +kernel)
  clean := cleanStatements_of_check (by decide +kernel)
  marked := fun call member _ => List.mem_singleton.mp member ▸ isMarked_splitPath
  apart := by
    intro call member other member' _ _ differs
    rw [List.mem_singleton.mp member, List.mem_singleton.mp member'] at differs
    exact absurd rfl differs

/-- Marks and built imports that run over several lines break what a file keeps: the first run
loses a function, and the second turns a part of a path into code. -/
theorem code_lost_across_lines :
    (MarkedRun "a.ts" splitMarkCalls (workspaceWith "@UNOAPI[get:/b") "@UNOAPI[get:/b"
        [true, false] (workspaceWith splitMarkText) ∧
      Yields (Work.fileText "a.ts") (workspaceWith splitMarkText) splitMarkText
        (workspaceWith splitMarkText) ∧
      bodyLines splitMarkText ≠
        bodyWith "@UNOAPI[get:/b" (FileCall.accepted "@UNOAPI[get:/b" splitMarkCalls)) ∧
    MarkedRun "a.ts" [splitPathCall] {} "" [true] (workspaceWith splitPathText) ∧
      Yields (Work.fileText "a.ts") (workspaceWith splitPathText) splitPathText
        (workspaceWith splitPathText) ∧
      bodyLines splitPathText ≠ bodyWith "" (FileCall.accepted "" [splitPathCall]) :=
  ⟨⟨markedRun_splitMark, yields_of_check (by decide +kernel), by decide +kernel⟩,
    markedRun_splitPath, yields_of_check (by decide +kernel), by decide +kernel⟩

end Instances

end TypedClient

import TypedClient.Import.Reader
import TypedClient.Proofs.Text.Part

namespace TypedClient

/-- All texts of a statement are fit. -/
structure Import.Holds (fit : List Char → Prop) (statement : Import) : Prop where
  path : fit statement.path.toList
  default : ∀ name ∈ statement.defaultName, fit name.toList
  space : ∀ name ∈ statement.asName, fit name.toList
  names : ∀ name ∈ statement.names, fit name.toList

theorem Import.Holds.mono {fit suits : List Char → Prop} {statement : Import}
    (held : statement.Holds fit) (weaker : ∀ text, fit text → suits text) :
    statement.Holds suits where
  path := weaker _ held.path
  default := fun name member => weaker _ (held.default name member)
  space := fun name member => weaker _ (held.space name member)
  names := fun name member => weaker _ (held.names name member)

def IsQuotable (path : List Char) : Prop := path ≠ [] ∧ ∀ c ∈ path, ImportText.isQuote c = false

instance (path : List Char) : Decidable (IsQuotable path) :=
  decidable_of_iff (path ≠ [] ∧ path.all (!ImportText.isQuote ·) = true)
    (and_congr_right fun _ => by simp)

namespace ImportText

variable {text rest path name : List Char}

theorem eq_of_after? {start : String} (found : after? start text = some rest) :
    text = start.toList ++ rest := by
  unfold after? at found
  split at found
  · rename_i front
    obtain ⟨more, rfl⟩ := List.isPrefixOf_iff_prefix.mp front
    cases found
    simp
  · cases found

theorem after?_append (start : String) (rest : List Char) :
    after? start (start.toList ++ rest) = some rest := by
  unfold after?
  rw [if_pos (List.isPrefixOf_iff_prefix.mpr (List.prefix_append _ _)), List.drop_left]

theorem infix_dropBlanks (inside : name <:+: dropBlanks text) : name <:+: text :=
  inside.trans (List.dropWhile_suffix _).isInfix

theorem infix_of_after? {start : String} (found : after? start text = some rest)
    (inside : name <:+: rest) : name <:+: text := by
  rw [eq_of_after? found]
  exact inside.trans (List.suffix_append _ _).isInfix

theorem quotedPath?_spec (found : quotedPath? text = some (path, rest)) :
    IsQuotable path ∧ ∃ opening closing, isQuote opening = true ∧ isQuote closing = true ∧
      dropBlanks text = opening :: (path ++ closing :: rest) := by
  unfold quotedPath? at found
  split at found
  · rename_i opening more shape
    have cut := List.takeWhile_append_dropWhile (p := (!isQuote ·)) (l := more)
    have held : ∀ c ∈ more.takeWhile (!isQuote ·), isQuote c = false := by
      intro c member
      simpa using List.mem_takeWhile_imp member
    dsimp only at found
    rw [Text.drop_takeWhile] at found
    split at found
    · rename_i closing tail follows
      split at found
      · rename_i both
        rw [Bool.and_eq_true] at both
        cases found
        refine ⟨⟨by simpa using both.2, held⟩, opening, closing, both.1, ?_, ?_⟩
        · have stopped := List.head_dropWhile_not (!isQuote ·) (by rw [follows]; simp)
          simpa [follows] using stopped
        · rw [shape, ← follows, cut]
      · cases found
    · cases found
  · cases found

theorem quotedPath?_append (before : IsQuotable path) {opening closing : Char}
    (opens : isQuote opening = true) (closes : isQuote closing = true) (rest : List Char) :
    quotedPath? (opening :: (path ++ closing :: rest)) = some (path, rest) := by
  have solid : Text.isBlank opening = false := by
    rcases Bool.or_eq_true _ _ ▸ opens with single | double
    · rw [beq_iff_eq.mp single]
      decide
    · rw [beq_iff_eq.mp double]
      decide
  have start : dropBlanks (opening :: (path ++ closing :: rest)) =
      opening :: (path ++ closing :: rest) :=
    List.dropWhile_cons_of_neg (by simp [solid])
  have held : ∀ c ∈ path, (!isQuote c) = true := by simpa using before.2
  have taken : (path ++ closing :: rest).takeWhile (!isQuote ·) = path :=
    Text.takeWhile_of_stop held (by simpa using closes)
  unfold quotedPath?
  rw [start]
  dsimp only
  rw [taken, List.drop_left]
  simp [opens, before.1]

theorem quotedPath?_space (text : List Char) : quotedPath? (' ' :: text) = quotedPath? text :=
  rfl

theorem source?_spec {found : String} (read : source? text = some found) :
    IsQuotable found.toList ∧ found.toList <:+: text := by
  unfold source? at read
  rcases Option.bind_eq_some_iff.mp read with ⟨behind, keyword, read⟩
  rcases Option.bind_eq_some_iff.mp read with ⟨⟨path, rest⟩, quoted, read⟩
  rcases quotedPath?_spec quoted with ⟨quotable, opening, closing, -, -, shape⟩
  dsimp only at read
  split at read
  · cases read
    rw [String.toList_ofList]
    refine ⟨quotable, infix_of_after? keyword (infix_dropBlanks ?_)⟩
    rw [shape]
    exact ⟨[opening], closing :: rest, by simp⟩
  · cases read

theorem name?_spec (found : name? text = some (name, rest)) :
    name ≠ [] ∧ (∀ c ∈ name, Naming.isFieldChar c = true) ∧ text = name ++ rest := by
  unfold name? at found
  dsimp only at found
  split at found
  · cases found
  · rename_i given
    cases found
    refine ⟨by simpa using given, fun c member => List.mem_takeWhile_imp member, ?_⟩
    rw [Text.drop_takeWhile, List.takeWhile_append_dropWhile]

theorem infix_of_mem_splitNames {found : String} (member : found ∈ splitNames text) :
    found.toList <:+: text := by
  rcases List.mem_filterMap.mp member with ⟨name, inside, given⟩
  rcases List.mem_map.mp inside with ⟨piece, split, rfl⟩
  split at given
  · cases given
  · cases given
    rw [String.toList_ofList]
    exact (Text.infix_trimWhere _ _).trans (Text.infix_of_mem_splitWhere split)

theorem braced?_spec {names : List String} {found : String}
    (read : braced? text = some (names, found)) :
    IsQuotable found.toList ∧ found.toList <:+: text ∧ ∀ name ∈ names, name.toList <:+: text := by
  unfold braced? at read
  rcases Option.bind_eq_some_iff.mp read with ⟨inner, opening, read⟩
  dsimp only at read
  rcases Option.bind_eq_some_iff.mp read with ⟨behind, closing, read⟩
  rcases Option.bind_eq_some_iff.mp read with ⟨path, source, read⟩
  cases read
  rcases source?_spec source with ⟨quotable, inside⟩
  refine ⟨quotable, ?_, ?_⟩
  · refine infix_of_after? opening ((infix_of_after? closing (infix_dropBlanks inside)).trans ?_)
    exact (List.drop_suffix _ _).isInfix
  · intro name member
    refine infix_of_after? opening ((infix_of_mem_splitNames member).trans ?_)
    exact (List.takeWhile_prefix _).isInfix

def ReadsFrom (form : List Char → Option Import) : Prop :=
  ∀ text statement, form text = some statement →
    IsQuotable statement.path.toList ∧ statement.Holds (· <:+: text)

theorem readsFrom_named? : ReadsFrom named? := by
  intro text statement read
  unfold named? at read
  split at read
  · rename_i names path braces
    cases read
    rcases braced?_spec braces with ⟨quotable, inside, each⟩
    exact ⟨quotable, inside, by simp, by simp, each⟩
  · rcases Option.bind_eq_some_iff.mp read with ⟨⟨default, behind⟩, named, read⟩
    rcases Option.bind_eq_some_iff.mp read with ⟨more, comma, read⟩
    rcases Option.bind_eq_some_iff.mp read with ⟨⟨names, path⟩, braces, read⟩
    cases read
    rcases name?_spec named with ⟨-, -, rfl⟩
    rcases braced?_spec braces with ⟨quotable, inside, each⟩
    have later : ∀ part, part <:+: dropBlanks more → part <:+: default ++ behind := by
      intro part held
      have held := infix_of_after? comma (infix_dropBlanks held)
      exact (infix_dropBlanks held).trans (List.suffix_append _ _).isInfix
    refine ⟨quotable, later _ inside, ?_, by simp, fun name member => later _ (each name member)⟩
    simp [(List.prefix_append default behind).isInfix]

theorem readsFrom_namespace? : ReadsFrom namespace? := by
  intro text statement read
  unfold namespace? at read
  rcases Option.bind_eq_some_iff.mp read with ⟨start, star, read⟩
  rcases Option.bind_eq_some_iff.mp read with ⟨⟨space, behind⟩, named, read⟩
  rcases Option.bind_eq_some_iff.mp read with ⟨more, blank, read⟩
  rcases Option.bind_eq_some_iff.mp read with ⟨path, source, read⟩
  cases read
  rcases name?_spec named with ⟨-, -, rfl⟩
  rcases source?_spec source with ⟨quotable, inside⟩
  refine ⟨quotable, ?_, by simp, ?_, by simp⟩
  · have held := infix_of_after? blank inside
    exact infix_of_after? star (held.trans (List.suffix_append _ _).isInfix)
  · simpa using infix_of_after? star (List.prefix_append space behind).isInfix

theorem readsFrom_default? : ReadsFrom default? := by
  intro text statement read
  unfold default? at read
  rcases Option.bind_eq_some_iff.mp read with ⟨⟨name, behind⟩, named, read⟩
  rcases Option.bind_eq_some_iff.mp read with ⟨more, blank, read⟩
  rcases Option.bind_eq_some_iff.mp read with ⟨path, source, read⟩
  cases read
  rcases name?_spec named with ⟨-, -, rfl⟩
  rcases source?_spec source with ⟨quotable, inside⟩
  refine ⟨quotable, ?_, ?_, by simp, by simp⟩
  · exact (infix_of_after? blank inside).trans (List.suffix_append _ _).isInfix
  · simp [(List.prefix_append name behind).isInfix]

theorem readsFrom_typedOrNot {form : List Char → Option Import} (reads : ReadsFrom form) :
    ReadsFrom (typedOrNot form) := by
  intro text statement read
  unfold typedOrNot at read
  split at read
  · rename_i typed found
    rcases Option.bind_eq_some_iff.mp found with ⟨rest, keyword, found⟩
    cases read
    rcases reads rest typed found with ⟨quotable, held⟩
    have within := held.mono fun part inside => infix_of_after? keyword inside
    exact ⟨quotable, within.path, within.default, within.space, within.names⟩
  · exact reads text statement read

theorem readsFrom_statement? : ReadsFrom statement? := by
  intro text statement read
  unfold statement? at read
  rcases Option.bind_eq_some_iff.mp read with ⟨body, keyword, read⟩
  have inside : ∀ form, ReadsFrom form → typedOrNot form body = some statement →
      IsQuotable statement.path.toList ∧ statement.Holds (· <:+: text) := by
    intro form reads found
    rcases readsFrom_typedOrNot reads body statement found with ⟨quotable, held⟩
    exact ⟨quotable, held.mono fun part within => infix_of_after? keyword within⟩
  split at read
  · rename_i found
    cases read
    exact inside named? readsFrom_named? found
  · rename_i found
    cases read
    exact inside namespace? readsFrom_namespace? found
  · exact inside default? readsFrom_default? (Option.filter_eq_some_iff.mp read).1

end ImportText

namespace ImportText

def statementsIn (lines : List (List Char)) : List (List Char) := (lines.map Text.trim).filter opens

def plainIn (lines : List (List Char)) : List (List Char) :=
  lines.filter fun line => !opens (Text.trim line)

end ImportText

def statementLines (code : String) : List (List Char) :=
  ImportText.statementsIn (Text.lines code.toList)

def plainLines (code : String) : List (List Char) := ImportText.plainIn (Text.lines code.toList)

def WholeStatements (code : String) : Prop :=
  ∀ line ∈ statementLines code, ImportText.isComplete line = true

theorem ImportEntry.ofLines_single (line : List Char) :
    ImportEntry.ofLines [line] = ImportEntry.parse line := by
  unfold ofLines
  rw [List.intercalate_singleton, List.intercalate_singleton]
  unfold parse
  cases ImportText.statement? ([' '].intercalate (Text.words line)) <;> rfl

theorem splitLines_of_complete {lines : List (List Char)}
    (whole : ∀ line ∈ ImportText.statementsIn lines, ImportText.isComplete line = true) :
    splitLines [] lines =
      ⟨(ImportText.statementsIn lines).map ImportEntry.parse, ImportText.plainIn lines⟩ := by
  unfold ImportText.statementsIn ImportText.plainIn at *
  induction lines with
  | nil => rfl
  | cons line rest ih =>
      rw [List.map_cons] at *
      by_cases opened : ImportText.opens (Text.trim line) = true
      · rw [List.filter_cons_of_pos opened] at *
        have complete := whole (Text.trim line) (by simp)
        have later := ih fun other member => whole other (by simp [member])
        rw [splitLines]
        simp [opened, complete, later, ImportEntry.ofLines_single]
      · rw [List.filter_cons_of_neg opened] at *
        rw [splitLines]
        simp [opened, ih whole]

theorem splitSource_of_whole {code : String} (whole : WholeStatements code) :
    splitSource code = ⟨(statementLines code).map ImportEntry.parse, plainLines code⟩ :=
  splitLines_of_complete whole

theorem unbroken_of_mem_statementLines {code : String} {line : List Char}
    (member : line ∈ statementLines code) : Text.Unbroken line := by
  rcases List.mem_map.mp (List.mem_filter.mp member).1 with ⟨original, inside, rfl⟩
  exact (Text.unbroken_of_mem_lines inside).of_subset (Text.trimWhere_subset _ _)

end TypedClient

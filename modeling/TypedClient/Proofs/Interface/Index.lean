import TypedClient.Output.Files
import TypedClient.Proofs.Import.Readable
import TypedClient.Proofs.Output.Extended
import TypedClient.Proofs.Path
import TypedClient.Proofs.Workspace

namespace TypedClient

structure IsModelName (name : String) : Prop where
  identifier : ImportText.IsIdentifier name.toList
  other : name ≠ "type"
  apart : name ≠ "index"

instance (name : String) : Decidable (IsModelName name) :=
  decidable_of_iff (ImportText.IsIdentifier name.toList ∧ name ≠ "type" ∧ name ≠ "index")
    ⟨fun ⟨identifier, other, apart⟩ => ⟨identifier, other, apart⟩,
      fun ⟨identifier, other, apart⟩ => ⟨identifier, other, apart⟩⟩

/-- The file of a model as the index of its directory lists it. -/
def listing (name : String) : Import := { path := "./" ++ name, defaultName := some name }

section Entries

variable {names : List String}

theorem IsModelName.ne_empty {name : String} (fit : IsModelName name) : name ≠ "" := by
  rintro rfl
  exact fit.identifier.1 rfl

theorem indexEntries_listing (given : ∀ name ∈ names, name ≠ "") :
    indexEntries (names.map listing) = names.eraseDups.map fun name => (name, "./" ++ name) := by
  have distinct : (names.map fun name => (name, "./" ++ name)).eraseDupsBy (fun a b => a.1 == b.1) =
      names.eraseDups.map fun name => (name, "./" ++ name) :=
    eraseDupsBy_map (f := fun name => (name, "./" ++ name)) (fun _ _ => rfl) names
  unfold indexEntries
  rw [← distinct]
  clear distinct
  congr 1
  induction names with
  | nil => rfl
  | cons first rest ih =>
      have later := ih fun name member => given name (by simp [member])
      have own := given first (by simp)
      simp only [List.map_cons, List.filterMap_cons, listing] at later ⊢
      rw [if_neg (by simpa using own), later]

/-- The index lists every model once, where it came first. -/
theorem indexText_eraseDups (given : ∀ name ∈ names, name ≠ "") (asGlobal : Bool) :
    indexText asGlobal (names.eraseDups.map listing) = indexText asGlobal (names.map listing) := by
  have given' : ∀ name ∈ names.eraseDups, name ≠ "" :=
    fun name member => given name (List.mem_eraseDups.mp member)
  unfold indexText
  rw [indexEntries_listing given, indexEntries_listing given',
    eraseDups_of_nodup (nodup_eraseDups names)]

theorem indexText_append {known added : List String} (given : ∀ name ∈ known ++ added, name ≠ "")
    (asGlobal : Bool) :
    indexText asGlobal (known.eraseDups.map listing ++ added.map listing) =
      indexText asGlobal ((known ++ added).map listing) := by
  have given' : ∀ name ∈ known.eraseDups ++ added, name ≠ "" := by
    intro name member
    rcases List.mem_append.mp member with old | new
    · exact given name (List.mem_append_left _ (List.mem_eraseDups.mp old))
    · exact given name (List.mem_append_right _ new)
  rw [← List.map_append, ← indexText_eraseDups given', eraseDups_eraseDups_append,
    indexText_eraseDups given]

end Entries

def indexImport (asGlobal : Bool) (name : String) : Import :=
  { path := "./" ++ name, defaultName := some (if asGlobal then "_" ++ name else name) }

def exportLine (asGlobal : Bool) (name : String) : List Char :=
  if asGlobal then
    ' ' :: ' ' :: ("type ".toList ++ name.toList ++ " = _".toList ++ name.toList ++ [';'])
  else ' ' :: ' ' :: (name.toList ++ [','])

def exportLines (asGlobal : Bool) (names : List String) : List (List Char) :=
  [] :: (if asGlobal then "declare global \x7b".toList else "export \x7b".toList) ::
    names.map (exportLine asGlobal) ++ ["\x7d".toList]

def indexLines (asGlobal : Bool) (names : List String) : List (List Char) :=
  names.flatMap (fun name => (indexImport asGlobal name).printed) ++ exportLines asGlobal names

section Lines

variable {name : String} {names : List String}

theorem printed_of_default {path binder : String} (given : binder ≠ "") :
    ({ path, defaultName := some binder : Import }).printed =
      [("import " ++ binder ++ " from '" ++ path ++ "';").toList] := by
  have clauses : ({ path, defaultName := some binder : Import }).clauses = [binder.toList] := by
    unfold Import.clauses
    rw [Option.filter_some, if_pos (by simpa using given)]
    rfl
  rw [Import.printed_of_clauses clauses (List.cons_ne_nil _ _), List.map_singleton]
  simp [Import.line, Import.keyword]

theorem binder_ne_empty (asGlobal : Bool) (given : name ≠ "") :
    (if asGlobal then "_" ++ name else name) ≠ "" := by
  cases asGlobal with
  | false => exact given
  | true => simp [← String.toList_inj]

theorem printed_indexImport (asGlobal : Bool) (given : name ≠ "") :
    (indexImport asGlobal name).printed.flatMap (· ++ ['\n']) =
      (defaultImport (if asGlobal then "_" ++ name else name) ("./" ++ name)).toList := by
  unfold indexImport defaultImport
  rw [printed_of_default (binder_ne_empty asGlobal given)]
  simp

theorem toList_indexText (asGlobal : Bool) (some_left : names ≠ [])
    (given : ∀ name ∈ names, name ≠ "") :
    (indexText asGlobal (names.map listing)).toList =
      (indexLines asGlobal names.eraseDups).flatMap (· ++ ['\n']) := by
  have given' : ∀ name ∈ names.eraseDups, name ≠ "" :=
    fun name member => given name (List.mem_eraseDups.mp member)
  have filled : names.eraseDups ≠ [] := by
    rcases eraseDups_shape some_left with ⟨first, rest, shape⟩
    simp [shape]
  unfold indexText
  rw [indexEntries_listing given]
  dsimp only
  rw [if_neg (by simpa using filled)]
  generalize names.eraseDups = distinct at given'
  have imports : (distinct.flatMap fun name => (indexImport asGlobal name).printed).flatMap
      (· ++ ['\n']) = distinct.flatMap fun name =>
        (defaultImport (if asGlobal then "_" ++ name else name) ("./" ++ name)).toList := by
    rw [List.flatMap_assoc]
    exact List.flatMap_congr fun name member => printed_indexImport asGlobal (given' name member)
  unfold indexLines exportLines exportLine
  rw [List.flatMap_append, imports]
  cases asGlobal with
  | false => simp [List.flatMap_map]
  | true => simp [List.flatMap_map]

theorem isPath_listing (fit : IsModelName name) : ImportText.IsPath ("./" ++ name).toList := by
  have start : ∀ c ∈ ['.', '/'], ImportText.isQuote c = false ∧ Text.isBlank c = false :=
    Text.forall_of_all (by decide)
  refine ⟨⟨by simp, ?_⟩, ?_⟩
  · intro c member
    rcases List.mem_append.mp (String.toList_append ▸ member) with front | inside
    · exact (start c front).1
    · exact ImportText.isQuote_of_isFieldChar (fit.identifier.2 c inside)
  · intro c member
    rcases List.mem_append.mp (String.toList_append ▸ member) with front | inside
    · exact (start c front).2
    · exact ImportText.isBlank_of_isFieldChar (fit.identifier.2 c inside)

theorem isIdentifier_binder (fit : IsModelName name) (asGlobal : Bool) :
    ImportText.IsIdentifier (if asGlobal then "_" ++ name else name).toList := by
  cases asGlobal with
  | false => exact fit.identifier
  | true =>
      have shape : ("_" ++ name).toList = '_' :: name.toList := by simp
      rw [if_pos rfl, shape]
      refine ⟨List.cons_ne_nil _ _, ?_⟩
      intro c member
      rcases List.mem_cons.mp member with rfl | inside
      · decide
      · exact fit.identifier.2 c inside

theorem binder_ne_type (fit : IsModelName name) (asGlobal : Bool) :
    (if asGlobal then "_" ++ name else name) ≠ "type" := by
  cases asGlobal with
  | false => exact fit.other
  | true =>
      intro same
      have start := congrArg (fun text => text.toList.head?) same
      simp at start

theorem readable_indexImport (fit : IsModelName name) (asGlobal : Bool) :
    (indexImport asGlobal name).Readable where
  path := isPath_listing fit
  default := by
    intro binder given
    cases given
    exact ⟨isIdentifier_binder fit asGlobal, binder_ne_type fit asGlobal⟩
  space := by
    intro space given
    cases given
  names := List.forall_mem_nil _
  binds := .inr (.inl (Option.some_ne_none _))

theorem trim_indented {core : List Char} (tight : Text.Tight Text.isBlank core) :
    Text.trim (' ' :: ' ' :: core) = core := by
  have before : ∀ c ∈ [' ', ' '], Text.isBlank c = true := Text.forall_of_all (by decide)
  have trimmed := Text.trimWhere_append before tight (List.forall_mem_nil _)
  rwa [List.append_nil] at trimmed

/-- Behind its keyword an import has something that is not part of a name. -/
theorem opens_of_none {text : List Char} (solid : ∀ c ∈ text, Text.isBlank c = false ∧
    c ≠ '\x7b' ∧ c ≠ '*' ∧ ImportText.isQuote c = false) : ImportText.opens text = false := by
  unfold ImportText.opens
  split
  · rename_i c rest found
    have inside : c ∈ text := by
      rw [ImportText.eq_of_after? found]
      simp
    rcases solid c inside with ⟨unblank, opening, star, quote⟩
    simp [unblank, opening, star, quote]
  · rfl

theorem opens_exportLine (fit : IsModelName name) (asGlobal : Bool) :
    ImportText.opens (Text.trim (exportLine asGlobal name)) = false := by
  unfold exportLine
  cases asGlobal with
  | false =>
      have solid : ∀ c ∈ name.toList ++ [','], Text.isBlank c = false ∧
          c ≠ '\x7b' ∧ c ≠ '*' ∧ ImportText.isQuote c = false := by
        intro c member
        rcases List.mem_append.mp member with inside | last
        · have field := fit.identifier.2 c inside
          refine ⟨ImportText.isBlank_of_isFieldChar field, ?_, ?_,
            ImportText.isQuote_of_isFieldChar field⟩
          · rintro rfl
            exact absurd field (by decide)
          · rintro rfl
            exact absurd field (by decide)
        · rw [List.mem_singleton.mp last]
          decide
      rw [if_neg Bool.false_ne_true, trim_indented (Text.tight_of_none fun c member =>
        (solid c member).1)]
      exact opens_of_none solid
  | true =>
      have tight : Text.Tight Text.isBlank
          ("type ".toList ++ name.toList ++ " = _".toList ++ name.toList ++ [';']) := by
        constructor
        · intro c first
          cases first
          decide
        · intro c last
          rw [List.getLast?_concat] at last
          cases last
          decide
      rw [if_pos rfl, trim_indented tight]
      rfl

theorem unbroken_exportLine (fit : IsModelName name) (asGlobal : Bool) :
    Text.Unbroken (exportLine asGlobal name) := by
  have own : Text.Unbroken name.toList := Text.unbroken_of_solid fit.identifier.isWord.2
  have frame : Text.Unbroken "type ".toList ∧ Text.Unbroken " = _".toList ∧
      Text.isLineBreak ' ' = false ∧ Text.isLineBreak ';' = false ∧
      Text.isLineBreak ',' = false := by
    refine ⟨Text.unbroken_of_all ?_, Text.unbroken_of_all ?_, ?_, ?_, ?_⟩ <;> decide
  unfold exportLine
  cases asGlobal with
  | false => simp only [Bool.false_eq_true, if_false, Text.unbroken_cons, Text.unbroken_append,
      Text.unbroken_nil, own, frame, and_self]
  | true => simp only [if_true, Text.unbroken_cons, Text.unbroken_append, Text.unbroken_nil, own,
      frame, and_self]

def exportFrame : List (List Char) :=
  [[], "declare global \x7b".toList, "export \x7b".toList, "\x7d".toList]

theorem mem_exportLines {asGlobal : Bool} {line : List Char}
    (member : line ∈ exportLines asGlobal names) :
    line ∈ exportFrame ∨ ∃ name ∈ names, line = exportLine asGlobal name := by
  simp only [exportLines, List.cons_append, List.mem_cons, List.mem_append, List.mem_map,
    List.not_mem_nil, or_false] at member
  rcases member with rfl | rfl | ⟨name, held, rfl⟩ | rfl
  · exact .inl (by simp [exportFrame])
  · cases asGlobal <;> exact .inl (by simp [exportFrame])
  · exact .inr ⟨name, held, rfl⟩
  · exact .inl (by simp [exportFrame])

theorem plain_exportLines (fit : ∀ name ∈ names, IsModelName name) (asGlobal : Bool) :
    ∀ line ∈ exportLines asGlobal names, ImportText.opens (Text.trim line) = false := by
  have frame : ∀ line ∈ exportFrame, ImportText.opens (Text.trim line) = false := by decide +kernel
  intro line member
  rcases mem_exportLines member with fixed | ⟨name, held, rfl⟩
  · exact frame line fixed
  · exact opens_exportLine (fit name held) asGlobal

theorem unbroken_exportLines (fit : ∀ name ∈ names, IsModelName name) (asGlobal : Bool) :
    ∀ line ∈ exportLines asGlobal names, Text.Unbroken line := by
  have frame : ∀ line ∈ exportFrame, line.all (!Text.isLineBreak ·) = true := by decide
  intro line member
  rcases mem_exportLines member with fixed | ⟨name, held, rfl⟩
  · exact Text.unbroken_of_all (frame line fixed)
  · exact unbroken_exportLine (fit name held) asGlobal

end Lines

section Read

variable {names : List String}

theorem isStatement_indexImports (fit : ∀ name ∈ names, IsModelName name) (asGlobal : Bool) :
    ∀ line ∈ names.flatMap (fun name => (indexImport asGlobal name).printed),
      ImportText.IsStatement line := by
  intro line member
  rcases List.mem_flatMap.mp member with ⟨name, held, inside⟩
  exact (readable_indexImport (fit name held) asGlobal).printable.isStatement inside

theorem lines_indexText (some_left : names ≠ []) (fit : ∀ name ∈ names, IsModelName name)
    (asGlobal : Bool) :
    Text.lines (indexText asGlobal (names.map listing)).toList =
      indexLines asGlobal names.eraseDups := by
  have fit' : ∀ name ∈ names.eraseDups, IsModelName name :=
    fun name member => fit name (List.mem_eraseDups.mp member)
  rw [toList_indexText asGlobal some_left fun name member => (fit name member).ne_empty]
  apply Text.lines_ended
  intro line member
  rcases List.mem_append.mp member with statement | exported
  · exact (isStatement_indexImports fit' asGlobal line statement).unbroken
  · exact unbroken_exportLines fit' asGlobal line exported

theorem statementLines_indexText (some_left : names ≠ []) (fit : ∀ name ∈ names, IsModelName name)
    (asGlobal : Bool) :
    statementLines (indexText asGlobal (names.map listing)) =
      names.eraseDups.flatMap fun name => (indexImport asGlobal name).printed := by
  have fit' : ∀ name ∈ names.eraseDups, IsModelName name :=
    fun name member => fit name (List.mem_eraseDups.mp member)
  have imports := statementsIn_of_isStatement (isStatement_indexImports fit' asGlobal)
  have exported := statementsIn_of_plain (plain_exportLines fit' asGlobal)
  unfold statementLines
  rw [lines_indexText some_left fit, indexLines, ImportText.statementsIn, List.map_append,
    List.filter_append]
  exact (congrArg₂ _ imports.1 exported.1).trans (List.append_nil _)

theorem parse_indexImports (fit : ∀ name ∈ names, IsModelName name) (asGlobal : Bool) :
    (names.flatMap fun name => (indexImport asGlobal name).printed).map ImportEntry.parse =
      names.map fun name => .item (indexImport asGlobal name) := by
  induction names with
  | nil => rfl
  | cons first rest ih =>
      have own := fit first (by simp)
      have read : (indexImport asGlobal first).printed.map ImportEntry.parse =
          [.item (indexImport asGlobal first)] :=
        Import.parse_printed_default (isPath_listing own) (isIdentifier_binder own asGlobal)
          (binder_ne_type own asGlobal)
      rw [List.flatMap_cons, List.map_append, read,
        ih fun name member => fit name (by simp [member])]
      rfl

/-- The name of a file stands in its path, whatever name the index binds it to. -/
theorem listed_indexImport {name : String} (fit : IsModelName name) (asGlobal : Bool) :
    isGiven (indexImport asGlobal name).defaultName = true ∧
      Path.name (indexImport asGlobal name).path = name := by
  have binder := binder_ne_empty asGlobal fit.ne_empty
  have whole : ∀ c ∈ name.toList, Path.isSlash c = false := by
    intro c member
    have field := fit.identifier.2 c member
    rw [Path.isSlash, beq_eq_false_iff_ne]
    rintro rfl
    exact absurd field (by decide)
  exact ⟨by simpa [isGiven, indexImport] using binder, Path.name_behind whole "."⟩

theorem listedModels_empty : listedModels "" = [] := rfl

/-- An index that is read again lists every model once, in the order in which they were given. -/
theorem listedModels_indexText (fit : ∀ name ∈ names, IsModelName name) (asGlobal : Bool) :
    listedModels (reread (indexText asGlobal (names.map listing))) =
      names.eraseDups.map listing := by
  by_cases empty : names = []
  · rw [empty]
    rfl
  · have fit' : ∀ name ∈ names.eraseDups, IsModelName name :=
      fun name member => fit name (List.mem_eraseDups.mp member)
    have statements : statementLines (reread (indexText asGlobal (names.map listing))) =
        names.eraseDups.flatMap fun name => (indexImport asGlobal name).printed := by
      rw [statementLines, lines_reread]
      exact statementLines_indexText empty fit asGlobal
    have whole : WholeStatements (reread (indexText asGlobal (names.map listing))) := by
      intro line member
      rw [statements] at member
      exact (isStatement_indexImports fit' asGlobal line member).complete
    unfold listedModels
    rw [splitSource_of_whole whole, statements, parse_indexImports fit']
    generalize names.eraseDups = distinct at fit'
    induction distinct with
    | nil => rfl
    | cons first rest ih =>
        have own := listed_indexImport (fit' first (by simp)) asGlobal
        have later := ih fun name member => fit' name (by simp [member])
        simp only [List.map_cons, List.filterMap_cons, ImportEntry.item?] at later ⊢
        rw [if_pos own.1, own.2, later]
        rfl

end Read

end TypedClient

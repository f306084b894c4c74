import TypedClient.Import.Merge
import TypedClient.Import.Printer
import TypedClient.Proofs.Import.Reading

namespace TypedClient

namespace Import

/-- The names between braces. -/
def named (names : List String) : List Char :=
  "\x7b ".toList ++ ", ".toList.intercalate (names.map String.toList) ++ " \x7d".toList

def clauses (statement : Import) : List (List Char) :=
  match statement.names.eraseDups, statement.asName.filter (· != ""),
    statement.defaultName.filter (· != "") with
  | first :: rest, _, some default =>
    if statement.onlyType then [default.toList, named (first :: rest)]
    else [default.toList ++ ", ".toList ++ named (first :: rest)]
  | first :: rest, _, none => [named (first :: rest)]
  | [], some space, _ => ["* as ".toList ++ space.toList]
  | [], none, some default => [default.toList]
  | [], none, none => []

def keyword (onlyType : Bool) : List Char :=
  if onlyType then "import type ".toList else "import ".toList

/-- The line of a clause. -/
def line (statement : Import) (clause : List Char) : List Char :=
  keyword statement.onlyType ++ clause ++ " from '".toList ++ statement.path.toList ++ "';".toList

/-- The lines of a statement. -/
def printed (statement : Import) : List (List Char) :=
  if statement.clauses.isEmpty then ["import '".toList ++ statement.path.toList ++ "';".toList]
  else statement.clauses.map statement.line

theorem text_eq_printed (statement : Import) :
    statement.text.toList = ['\n'].intercalate statement.printed := by
  unfold text printed clauses
  dsimp only
  cases statement.names.eraseDups with
  | nil =>
      cases statement.asName.filter (· != "") with
      | some space => cases only : statement.onlyType <;> simp [line, keyword, only]
      | none =>
          cases statement.defaultName.filter (· != "") with
          | some default => cases only : statement.onlyType <;> simp [line, keyword, only]
          | none => simp
  | cons first rest =>
      cases statement.defaultName.filter (· != "") with
      | none =>
          cases only : statement.onlyType <;>
            simp [line, keyword, only, named, String.toList_intercalate]
      | some default =>
          cases only : statement.onlyType <;>
            simp [line, keyword, only, named, String.toList_intercalate]

theorem mem_clauses {statement : Import} {clause : List Char}
    (member : clause ∈ statement.clauses) :
    (∃ name ∈ statement.defaultName, clause = name.toList) ∨
      clause = named statement.names.eraseDups ∨
      (∃ name ∈ statement.defaultName,
        clause = name.toList ++ ", ".toList ++ named statement.names.eraseDups) ∨
      ∃ name ∈ statement.asName, clause = "* as ".toList ++ name.toList := by
  unfold clauses at member
  split at member
  · rename_i names given
    have default := (Option.filter_eq_some_iff.mp given).1
    split at member
    · rcases List.mem_cons.mp member with rfl | second
      · exact .inl ⟨_, default, rfl⟩
      · rw [names]
        exact .inr (.inl (List.mem_singleton.mp second))
    · rw [names]
      exact .inr (.inr (.inl ⟨_, default, List.mem_singleton.mp member⟩))
  · rename_i names _
    rw [names]
    exact .inr (.inl (List.mem_singleton.mp member))
  · rename_i given
    exact .inr (.inr (.inr ⟨_, (Option.filter_eq_some_iff.mp given).1,
      List.mem_singleton.mp member⟩))
  · rename_i given
    exact .inl ⟨_, (Option.filter_eq_some_iff.mp given).1, List.mem_singleton.mp member⟩
  · cases member

theorem printed_ne_nil (statement : Import) : statement.printed ≠ [] := by
  unfold printed
  split
  · exact List.cons_ne_nil _ _
  · rename_i given
    rw [List.isEmpty_iff] at given
    exact fun none_left => given (List.map_eq_nil_iff.mp none_left)

theorem infix_text_of_printed {statement : Import} {part line : List Char}
    (member : line ∈ statement.printed) (inside : part <:+: line) :
    part <:+: statement.text.toList := by
  rw [text_eq_printed]
  exact inside.trans (Text.infix_join_of_mem _ member)

theorem infix_text_of_clause {statement : Import} {part clause : List Char}
    (member : clause ∈ statement.clauses) (inside : part <:+: clause) :
    part <:+: statement.text.toList := by
  have printed_line : statement.line clause ∈ statement.printed := by
    unfold printed
    rw [if_neg (by simpa using List.ne_nil_of_mem member)]
    exact List.mem_map_of_mem member
  apply infix_text_of_printed printed_line
  unfold Import.line
  simp only [List.append_assoc]
  exact (inside.trans (List.prefix_append _ _).isInfix).trans (List.suffix_append _ _).isInfix

theorem path_infix_text (statement : Import) :
    statement.path.toList <:+: statement.text.toList := by
  rcases List.exists_mem_of_ne_nil _ statement.printed_ne_nil with ⟨line, member⟩
  apply infix_text_of_printed member
  unfold printed at member
  split at member
  · rw [List.mem_singleton.mp member, List.append_assoc]
    exact ((List.prefix_append _ _).trans List.prefix_rfl).isInfix.trans
      (List.suffix_append _ _).isInfix
  · rcases List.mem_map.mp member with ⟨clause, -, rfl⟩
    unfold Import.line
    rw [List.append_assoc]
    exact (List.prefix_append _ _).isInfix.trans (List.suffix_append _ _).isInfix

theorem infix_named {names : List String} {name : String} (member : name ∈ names) :
    name.toList <:+: named names := by
  unfold named
  rw [List.append_assoc]
  have inside := Text.infix_join_of_mem ", ".toList
    (List.mem_map_of_mem (f := String.toList) member)
  exact (inside.trans (List.prefix_append _ _).isInfix).trans (List.suffix_append _ _).isInfix

theorem exists_clause_of_name {statement : Import} {name : String}
    (member : name ∈ statement.names) :
    ∃ clause ∈ statement.clauses, named statement.names.eraseDups <:+: clause := by
  have kept := List.mem_eraseDups.mpr member
  unfold clauses
  cases listed : statement.names.eraseDups with
  | nil =>
      rw [listed] at kept
      cases kept
  | cons first rest =>
      cases statement.defaultName.filter (· != "") with
      | none => exact ⟨_, List.mem_singleton_self _, List.infix_rfl⟩
      | some default =>
          dsimp only
          split
          · exact ⟨_, by simp, List.infix_rfl⟩
          · exact ⟨_, List.mem_singleton_self _, (List.suffix_append _ _).isInfix⟩

theorem exists_clause_of_default {statement : Import} {name : String}
    (plain : statement.asName = none) (given : statement.defaultName = some name)
    (solid : name ≠ "") : ∃ clause ∈ statement.clauses, name.toList <:+: clause := by
  have kept : statement.defaultName.filter (· != "") = some name := by simp [given, solid]
  unfold clauses
  rw [kept, plain]
  cases statement.names.eraseDups with
  | nil => exact ⟨_, List.mem_singleton_self _, List.infix_rfl⟩
  | cons first rest =>
      dsimp only
      split
      · exact ⟨_, by simp, List.infix_rfl⟩
      · refine ⟨_, List.mem_singleton_self _, ?_⟩
        rw [List.append_assoc]
        exact (List.prefix_append _ _).isInfix

theorem holds_text {statement : Import} (plain : statement.asName = none) :
    statement.Holds (· <:+: statement.text.toList) where
  path := statement.path_infix_text
  default := by
    intro name given
    by_cases empty : name = ""
    · simp [empty]
    · rcases exists_clause_of_default plain given empty with ⟨clause, member, inside⟩
      exact infix_text_of_clause member inside
  space := by simp [plain]
  names := by
    intro name member
    rcases exists_clause_of_name member with ⟨clause, held, inside⟩
    have own := infix_named (List.mem_eraseDups.mpr member)
    exact infix_text_of_clause held (own.trans inside)

def frame : List Char := "import type * as \x7b , \x7d from ';".toList

structure Framed (fit : List Char → Prop) : Prop where
  empty : fit []
  append : ∀ front gap back, gap ≠ [] → gap ⊆ frame → fit front → fit back →
    fit (front ++ gap ++ back)

section Framed

variable {fit : List Char → Prop} {statement : Import}

theorem Framed.behind (framed : Framed fit) {gap back : List Char} (given : gap ≠ [])
    (inside : gap ⊆ frame) (fits : fit back) : fit (gap ++ back) := by
  simpa using framed.append [] gap back given inside framed.empty fits

theorem Framed.before (framed : Framed fit) {front gap : List Char} (given : gap ≠ [])
    (inside : gap ⊆ frame) (fits : fit front) : fit (front ++ gap) := by
  simpa using framed.append front gap [] given inside fits framed.empty

theorem Framed.join (framed : Framed fit) {gap : List Char} {texts : List (List Char)}
    (given : gap ≠ []) (inside : gap ⊆ frame) (fits : ∀ text ∈ texts, fit text) :
    fit (gap.intercalate texts) := by
  induction texts with
  | nil => exact framed.empty
  | cons first rest ih =>
      have later := ih fun text member => fits text (by simp [member])
      by_cases more : rest = []
      · simpa [more] using fits first (by simp)
      · rw [List.intercalate_cons_of_ne_nil more]
        exact framed.append _ _ _ given inside (fits first (by simp)) later

theorem subset_frame {gap : List Char} (checked : gap.all frame.contains = true) : gap ⊆ frame := by
  intro c member
  simpa using List.all_eq_true.mp checked c member

theorem Framed.named (framed : Framed fit) {names : List String}
    (fits : ∀ name ∈ names, fit name.toList) : fit (named names) := by
  refine framed.before (by decide) (subset_frame (by decide))
    (framed.behind (by decide) (subset_frame (by decide))
      (framed.join (by decide) (subset_frame (by decide)) ?_))
  intro text member
  rcases List.mem_map.mp member with ⟨name, inside, rfl⟩
  exact fits name inside

theorem Framed.clause (framed : Framed fit) (held : statement.Holds fit) {clause : List Char}
    (member : clause ∈ statement.clauses) : fit clause := by
  have names : fit (Import.named statement.names.eraseDups) :=
    framed.named fun name inside => held.names name (List.mem_eraseDups.mp inside)
  rcases mem_clauses member with ⟨name, given, rfl⟩ | rfl | ⟨name, given, rfl⟩ | ⟨name, given, rfl⟩
  · exact held.default name given
  · exact names
  · exact framed.append _ _ _ (by decide) (subset_frame (by decide)) (held.default name given) names
  · exact framed.behind (by decide) (subset_frame (by decide)) (held.space name given)

theorem Framed.printed (framed : Framed fit) (held : statement.Holds fit) {line : List Char}
    (member : line ∈ statement.printed) : fit line := by
  unfold Import.printed at member
  split at member
  · rw [List.mem_singleton] at member
    subst member
    exact framed.before (by decide) (subset_frame (by decide))
      (framed.behind (by decide) (subset_frame (by decide)) held.path)
  · rcases List.mem_map.mp member with ⟨clause, inside, rfl⟩
    have start : fit (keyword statement.onlyType ++ clause) := by
      have fits := framed.clause held inside
      unfold keyword
      split
      · exact framed.behind (by decide) (subset_frame (by decide)) fits
      · exact framed.behind (by decide) (subset_frame (by decide)) fits
    exact framed.before (by decide) (subset_frame (by decide))
      (framed.append _ _ _ (by decide) (subset_frame (by decide)) start held.path)

theorem framed_unbroken : Framed Text.Unbroken where
  empty := Text.unbroken_nil
  append := by
    intro front gap back _ inside front_whole back_whole
    have gap_whole : Text.Unbroken gap :=
      (Text.unbroken_of_all (by decide) : Text.Unbroken frame).of_subset inside
    simp [front_whole, gap_whole, back_whole]

theorem framed_not_infix {part : List Char} (solid : part ≠ []) (apart : frame.Disjoint part) :
    Framed fun text => ¬ part <:+: text where
  empty := by simpa using solid
  append := by
    intro front gap back given inside front_lacks back_lacks held
    have split :=
      Text.infix_append_gap given (fun c member => apart (inside member)) solid front back
    rcases split.mp held with within | within
    · exact front_lacks within
    · exact back_lacks within

end Framed

end Import

namespace ImportText

structure IsStatement (line : List Char) : Prop where
  unbroken : Text.Unbroken line
  trimmed : Text.trim line = line
  opens : opens line = true
  complete : isComplete line = true

theorem holdsSource_append {rest : List Char}
    (found : ((after? "from" rest).bind quotedPath?).isSome)
    (front : List Char) (previous : Option Char) :
    holdsSource previous (front ++ ' ' :: rest) = true := by
  induction front generalizing previous with
  | nil =>
      cases rest with
      | nil => cases found
      | cons c more =>
          have outside : Text.isWord ' ' = false := by decide
          rw [List.nil_append, holdsSource, holdsSource]
          simp [outside, found]
  | cons c more ih =>
      rw [List.cons_append, holdsSource, ih, Bool.or_true]

/-- A source clause names a path if the path does not begin with a quote. -/
theorem quotedPath?_isSome {first : Char} (start : isQuote first = false) (rest : List Char) :
    (quotedPath? (' ' :: '\'' :: first :: (rest ++ ['\'', ';']))).isSome := by
  have solid : dropBlanks ('\'' :: first :: (rest ++ ['\'', ';'])) =
      '\'' :: first :: (rest ++ ['\'', ';']) :=
    rfl
  rw [quotedPath?_space, quotedPath?, solid]
  dsimp only
  rw [Text.drop_takeWhile, List.takeWhile_cons_of_pos (by simp [start])]
  have stopped : (first :: (rest ++ ['\'', ';'])).dropWhile (!isQuote ·) ≠ [] := by
    intro all
    have quote := List.dropWhile_eq_nil_iff.mp all '\'' (by simp)
    revert quote
    decide
  split
  · simp [isQuote]
  · rename_i none_left
    exact absurd none_left stopped

theorem trim_of_ends {line : List Char} (middle : List Char)
    (shape : line = 'i' :: (middle ++ [';'])) :
    Text.trim line = line := by
  apply Text.trimWhere_of_tight
  subst shape
  constructor
  · simp only [List.head?_cons, Option.mem_some_iff]
    rintro _ rfl
    decide
  · rw [← List.cons_append, List.getLast?_append_of_ne_nil _ (by simp)]
    simp only [List.getLast?_singleton, Option.mem_some_iff]
    rintro _ rfl
    decide

theorem isStatement_of_source {line path : List Char} (front : List Char)
    (unbroken : Text.Unbroken line)
    (start : ∃ first rest, path = first :: rest ∧ isQuote first = false)
    (shape : line = "import ".toList ++ (front ++ " from '".toList ++ path ++ "';".toList)) :
    IsStatement line where
  unbroken := unbroken
  trimmed := by
    apply trim_of_ends ("mport ".toList ++ (front ++ " from '".toList ++ path ++ ['\'']))
    simp [shape]
  opens := by
    rw [shape]
    rfl
  complete := by
    rcases start with ⟨first, rest, rfl, outside⟩
    have clause : ((after? "from"
        ("from".toList ++ (' ' :: '\'' :: first :: (rest ++ ['\'', ';'])))).bind
        quotedPath?).isSome := by
      rw [after?_append]
      exact quotedPath?_isSome outside rest
    have found := holdsSource_append clause ("import ".toList ++ front) none
    unfold isComplete
    rw [Bool.or_eq_true]
    left
    convert found using 1
    simp [shape]

theorem isStatement_of_path {line path : List Char} (unbroken : Text.Unbroken line)
    (complete : isComplete line = true) (shape : line = "import '".toList ++ path ++ "';".toList) :
    IsStatement line where
  unbroken := unbroken
  trimmed := by
    apply trim_of_ends ("mport '".toList ++ path ++ ['\''])
    simp [shape]
  opens := by
    rw [shape]
    rfl
  complete := complete

theorem isComplete_of_quotable {path : List Char} (quotable : IsQuotable path) :
    isComplete ("import '".toList ++ path ++ "';".toList) = true := by
  have found : quotedPath? ('\'' :: (path ++ '\'' :: [';'])) = some (path, [';']) :=
    quotedPath?_append quotable rfl rfl [';']
  have shape : "import '".toList ++ path ++ "';".toList =
      "import".toList ++ (' ' :: '\'' :: (path ++ '\'' :: [';'])) := by
    simp
  have side : isSideEffect ("import '".toList ++ path ++ "';".toList) = true := by
    unfold isSideEffect
    rw [shape, after?_append, Option.bind_some, quotedPath?_space, found]
    rfl
  unfold isComplete
  rw [side, Bool.or_true]

end ImportText

theorem WholeStatements.isStatement {code : String} (whole : WholeStatements code)
    {line : List Char}
    (member : line ∈ statementLines code) : ImportText.IsStatement line := by
  rcases List.mem_filter.mp member with ⟨trimmed, opens⟩
  rcases List.mem_map.mp trimmed with ⟨original, -, rfl⟩
  exact ⟨unbroken_of_mem_statementLines member, Text.trimWhere_trimWhere _ _, opens,
    whole _ member⟩

namespace Import

structure Printable (statement : Import) : Prop where
  unbroken : statement.Holds Text.Unbroken
  start : ∃ first rest, statement.path.toList = first :: rest ∧ ImportText.isQuote first = false
  binds : statement.clauses = [] →
    ImportText.isComplete ("import '".toList ++ statement.path.toList ++ "';".toList) = true

theorem Printable.isStatement {statement : Import} (printable : statement.Printable)
    {line : List Char} (member : line ∈ statement.printed) : ImportText.IsStatement line := by
  have unbroken := framed_unbroken.printed printable.unbroken member
  unfold printed at member
  split at member
  · rename_i nothing
    have shape := List.mem_singleton.mp member
    have complete := printable.binds (List.isEmpty_iff.mp nothing)
    exact ImportText.isStatement_of_path unbroken (shape ▸ complete) shape
  · rcases List.mem_map.mp member with ⟨clause, -, rfl⟩
    have shape : ∃ front, keyword statement.onlyType ++ clause = "import ".toList ++ front := by
      unfold keyword
      split
      · exact ⟨"type ".toList ++ clause, by simp⟩
      · exact ⟨clause, rfl⟩
    rcases shape with ⟨front, shape⟩
    apply ImportText.isStatement_of_source front unbroken printable.start
    simp [Import.line, shape]

end Import

end TypedClient

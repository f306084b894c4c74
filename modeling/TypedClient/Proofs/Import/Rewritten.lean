import TypedClient.Proofs.Import.Pending
import TypedClient.Proofs.Import.Readable

namespace TypedClient

namespace Layout

open Text ImportText

/-- A name that is bound, with the words that it is listed by, as a type or not. -/
inductive Bound
  | default (name : List Char) (onlyType : Bool)
  | listed (name : List (List Char)) (onlyType : Bool)
  deriving DecidableEq, Repr

namespace Declaration

variable (declaration : Declaration)

def bound : List Bound :=
  declaration.default.toList.map (.default · declaration.onlyType) ++
    declaration.names.map (.listed · declaration.onlyType)

def bareTokens (semicolon : Bool) : List Token :=
  .word "import".toList :: match declaration.default with
    | some name => .word name :: declaration.source semicolon
    | none => .path declaration.path :: closing semicolon

/-- What tokens state, in braces or, if no names are listed, without them. -/
def StatedBy (tokens : List Token) : Prop :=
  (∃ comma semicolon, codeOf tokens = declaration.tokens comma semicolon) ∨
    declaration.names = [] ∧ ∃ semicolon, codeOf tokens = declaration.bareTokens semicolon

end Declaration

/-- A text that is nothing but one statement and comments. -/
def States (code : String) (declaration : Declaration) : Prop :=
  ∃ tokens, scanLines (Text.lines code.toList) = some tokens ∧ declaration.StatedBy tokens

variable {text rest : List Char} {lines : List (List Char)} {tokens others : List Token}
  {declaration : Declaration} {comma semicolon : Bool}

section Shape

/-- A token of the code cuts the tokens where it cuts the code. -/
theorem split_code {front back : List Token} {token : Token}
    (code : codeOf tokens = front ++ token :: back) :
    ∃ head behind, tokens = head ++ token :: behind ∧ codeOf head = front ∧
      codeOf behind = back := by
  rcases List.filter_eq_append_iff.mp code with ⟨head, rest, rfl, head_code, rest_code⟩
  rcases List.filter_eq_cons_iff.mp rest_code with ⟨gap, behind, rfl, comments, -, behind_code⟩
  have silent : codeOf gap = [] := List.filter_eq_nil_iff.mpr comments
  exact ⟨head ++ gap, behind, (List.append_assoc _ _ _).symm,
    by rw [codeOf_append, silent, List.append_nil]; exact head_code, behind_code⟩

theorem not_mem_of_codeOf {token : Token} (own : token.isComment = false)
    (absent : token ∉ codeOf tokens) : token ∉ tokens :=
  fun member => absent (List.mem_filter.mpr ⟨member, by simp [own]⟩)

/-- The tokens of a statement apart at its braces, between which no comment stands. -/
theorem exists_braces (code : codeOf tokens = declaration.tokens comma semicolon)
    (plain : ∀ token ∈ betweenBraces tokens, token.isComment = false) :
    ∃ head behind, tokens = head ++ .mark '\x7b' ::
        (listed comma declaration.names ++ .mark '\x7d' :: behind) ∧
      codeOf head = .word "import".toList :: declaration.opening ∧
      codeOf behind = declaration.source semicolon := by
  rw [Declaration.tokens, ← List.cons_append] at code
  rcases split_code code with ⟨head, tail, rfl, head_code, tail_code⟩
  rcases split_code tail_code with ⟨inside, behind, rfl, inside_code, behind_code⟩
  have head_open : .mark '\x7b' ∉ head := by
    apply not_mem_of_codeOf rfl
    rw [head_code]
    simp [mark_not_mem_opening]
  have inside_open : .mark '\x7d' ∉ inside := by
    apply not_mem_of_codeOf rfl
    rw [inside_code]
    intro member
    rcases listing_listed (by decide : ',' ≠ '\x7d') comma declaration.names _ member
      with ⟨word, same⟩ | ⟨c, same, other⟩
    · cases same
    · exact other (Token.mark.inj same).symm
  have between : betweenBraces (head ++ .mark '\x7b' :: (inside ++ .mark '\x7d' :: behind)) =
      .mark '\x7b' :: inside := by
    have skipped : ∀ token ∈ head, (token != .mark '\x7b') = true := by
      intro token member
      rw [bne_iff_ne]
      rintro rfl
      exact head_open member
    have taken : ∀ token ∈ .mark '\x7b' :: inside, (token != .mark '\x7d') = true := by
      intro token member
      rw [bne_iff_ne]
      rintro rfl
      rcases List.mem_cons.mp member with same | later
      · exact absurd same (by decide)
      · exact inside_open later
    rw [betweenBraces, List.dropWhile_append_of_pos skipped,
      List.dropWhile_cons_of_neg (by simp), ← List.cons_append]
    exact takeWhile_of_stop taken (by simp)
  rw [between] at plain
  have same : codeOf inside = inside := by
    rw [codeOf, List.filter_eq_self]
    intro token member
    simp [plain token (List.mem_cons_of_mem _ member)]
  rw [← inside_code, same]
  exact ⟨head, behind, rfl, head_code, behind_code⟩

end Shape

section Printed

theorem Scans.isToken (scans : Scans text tokens) {word : List Char}
    (member : .word word ∈ tokens) : IsToken word := by
  induction scans with
  | word given solid _ _ ih =>
      rcases List.mem_cons.mp member with same | later
      · rw [Token.word.inj same]
        exact ⟨given, solid⟩
      · exact ih later
  | _ => simp_all

theorem ScansAll.isToken (scansAll : ScansAll lines tokens) {word : List Char}
    (member : .word word ∈ tokens) : IsToken word := by
  induction scansAll with
  | nil => cases member
  | cons scans _ ih =>
      rcases List.mem_append.mp member with own | later
      · exact scans.isToken own
      · exact ih later

theorem scans_join {words : List (List Char)} (solid : ∀ word ∈ words, IsToken word)
    (given : words ≠ []) (ends : ∀ c ∈ rest.head?, isWordChar c = false)
    (scans : Scans rest tokens) :
    Scans ([' '].intercalate words ++ rest) (words.map .word ++ tokens) := by
  induction words with
  | nil => exact absurd rfl given
  | cons first more ih =>
      have own := solid first List.mem_cons_self
      by_cases last : more = []
      · subst last
        simpa using Scans.word own.1 own.2 ends scans
      · have later := ih (fun word member => solid word (List.mem_cons_of_mem first member)) last
        rw [List.intercalate_cons_of_ne_nil last, List.append_assoc, List.append_assoc]
        exact later.spaced own

theorem scans_listed {names : List (List (List Char))} (given : ∀ name ∈ names, name ≠ [])
    (solid : ∀ name ∈ names, ∀ word ∈ name, IsToken word) (scans : Scans rest tokens) :
    Scans (", ".toList.intercalate (names.map fun name => (nameText name).toList) ++ ' ' :: rest)
      (listed false names ++ tokens) := by
  induction names with
  | nil => exact .blank (by decide) scans
  | cons first more ih =>
      have own_solid := solid first List.mem_cons_self
      have own_given := given first List.mem_cons_self
      have later := ih (fun name member => given name (List.mem_cons_of_mem first member))
        fun name member => solid name (List.mem_cons_of_mem first member)
      by_cases last : more = []
      · subst last
        have own := scans_join own_solid own_given (by simp; decide)
          (.blank (by decide : isBlank ' ' = true) scans)
        simpa [listed, nameText] using own
      · rw [List.map_cons, List.intercalate_cons_of_ne_nil (by simpa using last),
          listed_cons false first last, List.append_assoc, List.append_assoc, List.append_assoc,
          nameText, String.toList_ofList]
        exact scans_join own_solid own_given (by simp; decide)
          (.mark (by decide) (.blank (by decide) later))

theorem scans_source (content : Content '\'' declaration.path) {path : String}
    (same : path.toList = declaration.path) :
    Scans (' ' :: sourceClause path) (declaration.source true) := by
  have shape : sourceClause path =
      "from".toList ++ ' ' :: '\'' :: (declaration.path ++ '\'' :: [';']) := by
    rw [← same]
    exact List.append_assoc _ _ _
  rw [shape]
  have clause : Scans ('\'' :: (declaration.path ++ '\'' :: [';'])) _ :=
    .path (by decide) content (.mark (by decide) .nil)
  exact .blank (by decide) (clause.spaced (by decide))

theorem scans_named {names : List (List (List Char))} (given : ∀ name ∈ names, name ≠ [])
    (solid : ∀ name ∈ names, ∀ word ∈ name, IsToken word) (scans : Scans rest tokens) :
    Scans (Import.named (names.map nameText) ++ rest)
      (.mark '\x7b' :: (listed false names ++ .mark '\x7d' :: tokens)) := by
  have shape : Import.named (names.map nameText) ++ rest =
      '\x7b' :: ' ' :: (", ".toList.intercalate (names.map fun name => (nameText name).toList) ++
        ' ' :: '\x7d' :: rest) := by
    simp [Import.named, Function.comp_def]
  rw [shape]
  exact .mark (by decide) (.blank (by decide) (scans_listed given solid (.mark (by decide) scans)))

theorem scans_keyword (onlyType : Bool) (scans : Scans text tokens) :
    Scans (Import.keyword onlyType ++ text)
      (.word "import".toList :: ((if onlyType then [.word "type".toList] else []) ++ tokens)) := by
  cases onlyType with
  | false =>
      have shape : Import.keyword false ++ text = "import".toList ++ ' ' :: text := rfl
      rw [shape]
      exact scans.spaced (by decide)
  | true =>
      have shape : Import.keyword true ++ text =
          "import".toList ++ ' ' :: ("type".toList ++ ' ' :: text) := rfl
      rw [shape]
      exact (scans.spaced (by decide)).spaced (by decide)

theorem codeOf_closing (semicolon : Bool) : codeOf (closing semicolon) = closing semicolon := by
  cases semicolon <;> rfl

theorem codeOf_source (semicolon : Bool) :
    codeOf (declaration.source semicolon) = declaration.source semicolon := by
  simp [Declaration.source, codeOf_closing]

theorem codeOf_tokens (comma semicolon : Bool) :
    codeOf (declaration.tokens comma semicolon) = declaration.tokens comma semicolon := by
  have names : codeOf (listed comma declaration.names) = listed comma declaration.names := by
    rw [codeOf, List.filter_eq_self]
    intro token member
    simp [(listing_listed (by decide : ',' ≠ ';') comma declaration.names).code token member]
  have opening : codeOf declaration.opening = declaration.opening := by
    rcases opening_cases declaration with none | ⟨word, rest, shape, rfl | rfl⟩
    · simp [none]
    · simp [shape]
    · simp [shape]
  simp [Declaration.tokens, names, opening, codeOf_source]

variable {statement : Import}

theorem exists_names {names : List (List (List Char))} {texts : List String}
    (solid : ∀ name ∈ names, ∀ word ∈ name, IsToken word)
    (same : ∀ text, text ∈ texts ↔ text ∈ names.map nameText) :
    ∃ kept : List (List (List Char)), texts = kept.map nameText ∧
      ∀ name, name ∈ kept ↔ name ∈ names := by
  have inside : ∀ text ∈ texts, text ∈ names.map nameText := fun text => (same text).mp
  obtain ⟨kept, rfl, held⟩ : ∃ kept : List (List (List Char)),
      texts = kept.map nameText ∧ ∀ name ∈ kept, name ∈ names := by
    clear same
    induction texts with
    | nil => exact ⟨[], rfl, by simp⟩
    | cons first rest ih =>
        rcases List.mem_map.mp (inside first List.mem_cons_self) with ⟨name, own, rfl⟩
        rcases ih fun text member => inside text (List.mem_cons_of_mem _ member)
          with ⟨kept, rfl, held⟩
        exact ⟨name :: kept, rfl, List.forall_mem_cons.mpr ⟨own, held⟩⟩
  refine ⟨kept, rfl, fun name => ⟨held name, fun member => ?_⟩⟩
  rcases List.mem_map.mp ((same _).mpr (List.mem_map_of_mem member)) with ⟨other, listed, spelled⟩
  have words_other :=
    words_join fun word inside => (solid other (held other listed) word inside).isWord
  have words_name := words_join fun word inside => (solid name member word inside).isWord
  have joined : [' '].intercalate other = [' '].intercalate name := by
    exact String.ofList_injective spelled
  rwa [← words_name, ← joined, words_other]

theorem Content.of_plain {quote other : Char} (content : Content quote text)
    (plain : ∀ c ∈ text, isQuote c = false) (opens : isQuote other = true) :
    Content other text := by
  have apart : ∀ {c}, isQuote c = false → c ≠ other := by
    rintro c outside rfl
    rw [opens] at outside
    cases outside
  induction content with
  | nil => exact .nil
  | plain _ unescaped _ ih =>
      have own := plain _ List.mem_cons_self
      exact .plain (apart own) unescaped
        (ih fun c member => plain c (List.mem_cons_of_mem _ member))
  | escape c _ _ ih =>
      have own := plain '\\' List.mem_cons_self
      exact .escape c (apart own).symm
        (ih fun d member => plain d (List.mem_cons_of_mem _ (List.mem_cons_of_mem _ member)))

theorem scansAll_of_clause {clause : List Char} (clauses : statement.clauses = [clause])
    (scans : Scans (clause ++ ' ' :: sourceClause statement.path) tokens) :
    ScansAll statement.printed (.word "import".toList ::
      ((if statement.onlyType then [.word "type".toList] else []) ++ tokens)) := by
  rw [Import.printed_of_clauses clauses (List.cons_ne_nil _ _), List.map_singleton, Import.line_eq]
  have line := scans_keyword statement.onlyType scans
  simpa using ScansAll.cons line .nil

theorem scansAll_of_bare (clauses : statement.clauses = [])
    (content : Content '\'' statement.path.toList) :
    ScansAll statement.printed
      [.word "import".toList, .path statement.path.toList, .mark ';'] := by
  have printed : statement.printed =
      ["import".toList ++ ' ' :: '\'' :: (statement.path.toList ++ '\'' :: [';'])] := by
    simp [Import.printed, clauses]
  rw [printed]
  have path : Scans ('\'' :: (statement.path.toList ++ '\'' :: [';'])) _ :=
    .path (by decide) content (.mark (by decide) .nil)
  exact .cons (path.spaced (by decide)) .nil

structure Declaration.IsPrinted (declaration : Declaration) (statement : Import) : Prop where
  path : statement.path.toList = declaration.path
  onlyType : statement.onlyType = declaration.onlyType
  default : statement.defaultName.map String.toList = declaration.default
  space : statement.asName.filter (· != "") = none
  names : statement.names.eraseDups = declaration.names.map nameText
  content : Content '\'' declaration.path
  words : ∀ name ∈ declaration.names, ∀ word ∈ name, IsToken word
  identifier : ∀ name ∈ declaration.default, IsToken name

theorem Declaration.IsPrinted.source (printed : declaration.IsPrinted statement) :
    Scans (' ' :: sourceClause statement.path) (declaration.source true) :=
  scans_source printed.content printed.path

theorem Declaration.IsPrinted.named (printed : declaration.IsPrinted statement) :
    Scans (Import.named (declaration.names.map nameText) ++ ' ' :: sourceClause statement.path)
      (.mark '\x7b' ::
        (listed false declaration.names ++ .mark '\x7d' :: declaration.source true)) :=
  scans_named declaration.given printed.words printed.source

theorem stated_of_no_default (printed : declaration.IsPrinted statement)
    (absent : statement.defaultName = none) :
    ∃ own, ScansAll statement.printed own ∧ declaration.StatedBy own := by
  have no_default : declaration.default = none := by rw [← printed.default, absent]; rfl
  by_cases empty : declaration.names = []
  · have clauses : statement.clauses = [] := by
      rw [Import.clauses, printed.names, printed.space, absent, empty]
      rfl
    refine ⟨_, scansAll_of_bare clauses (printed.path ▸ printed.content), .inr ⟨empty, true, ?_⟩⟩
    rw [Declaration.bareTokens, no_default, printed.path]
    rfl
  · have clauses : statement.clauses = [Import.named (declaration.names.map nameText)] := by
      rw [Import.clauses, printed.names, printed.space, absent]
      rcases List.exists_cons_of_ne_nil empty with ⟨first, rest, same⟩
      rw [same]
      rfl
    refine ⟨_, scansAll_of_clause clauses printed.named, .inl ⟨false, true, ?_⟩⟩
    rw [← codeOf_tokens false true, printed.onlyType, Declaration.tokens, Declaration.opening,
      no_default]
    simp

theorem stated_of_default (printed : declaration.IsPrinted statement) {name : String}
    (given : statement.defaultName = some name) :
    ∃ own, ScansAll statement.printed own ∧ declaration.StatedBy own := by
  have default : declaration.default = some name.toList := by rw [← printed.default, given]; rfl
  have solid : IsToken name.toList := printed.identifier _ default
  have plain : declaration.onlyType = false := by
    rw [← Bool.not_eq_true]
    intro typed
    rw [declaration.apart typed] at default
    cases default
  have filtered : (some name).filter (· != "") = some name := by
    rw [Option.filter_some_eq_some, bne_iff_ne]
    rintro rfl
    exact solid.1 rfl
  by_cases empty : declaration.names = []
  · have clauses : statement.clauses = [name.toList] := by
      rw [Import.clauses, printed.names, printed.space, given, filtered, empty]
      rfl
    have body := Scans.word solid.1 solid.2 (by simp; decide) printed.source
    refine ⟨_, scansAll_of_clause clauses body, .inr ⟨empty, true, ?_⟩⟩
    rw [Declaration.bareTokens, default, printed.onlyType, plain]
    simp [codeOf_source]
  · have clauses : statement.clauses =
        [name.toList ++ ", ".toList ++ Import.named (declaration.names.map nameText)] := by
      rw [Import.clauses, printed.names, printed.space, given, filtered, printed.onlyType, plain]
      rcases List.exists_cons_of_ne_nil empty with ⟨first, rest, same⟩
      rw [same]
      rfl
    have body : Scans (name.toList ++ ',' :: ' ' ::
        (Import.named (declaration.names.map nameText) ++ ' ' :: sourceClause statement.path)) _ :=
      .word solid.1 solid.2 (by simp; decide)
        (.mark (by decide) (.blank (by decide) printed.named))
    refine ⟨_, scansAll_of_clause clauses (by simpa using body), .inl ⟨false, true, ?_⟩⟩
    rw [← codeOf_tokens false true, printed.onlyType, plain, Declaration.tokens,
      Declaration.opening, default, plain]
    simp

theorem Declaration.IsPrinted.stated (printed : declaration.IsPrinted statement) :
    ∃ own, ScansAll statement.printed own ∧ declaration.StatedBy own := by
  cases given : statement.defaultName with
  | none => exact stated_of_no_default printed given
  | some name => exact stated_of_default printed given

/-- The statement that a declaration is read as prints a declaration that binds the same. -/
theorem exists_printed (read : declaration.IsRead statement)
    (quotable : IsQuotable statement.path.toList)
    (words : ∀ name ∈ declaration.names, ∀ word ∈ name, IsToken word)
    (identifier : ∀ name ∈ declaration.default, IsToken name) :
    ∃ kept : Declaration, kept.IsPrinted statement ∧ kept.path = declaration.path ∧
      ∀ bound, bound ∈ kept.bound ↔ bound ∈ declaration.bound := by
  have names_same : ∀ text,
      text ∈ statement.names.eraseDups ↔ text ∈ declaration.names.map nameText :=
    fun text => by rw [List.mem_eraseDups, read.names]
  rcases exists_names words names_same with ⟨names, names_text, names_iff⟩
  have content : Content '\'' declaration.path := by
    rcases read.quoted with ⟨quote, -, content⟩
    exact content.of_plain (fun c member => quotable.2 c (by rwa [read.path])) rfl
  refine ⟨{ declaration with
      names
      given := fun name member => declaration.given name ((names_iff name).mp member) },
    ⟨read.path, read.onlyType, read.default, by rw [read.space]; rfl, names_text, content,
      fun name member => words name ((names_iff name).mp member), identifier⟩, rfl, fun bound => ?_⟩
  simp [Declaration.bound, names_iff]

end Printed

section Lines

theorem ScansAll.lines_join (scansAll : ScansAll lines tokens)
    (whole : ∀ line ∈ lines, Unbroken line) :
    ScansAll (Text.lines (['\n'].intercalate lines)) tokens := by
  induction scansAll with
  | nil => exact .nil
  | @cons line rest own others scans later ih =>
      have own_whole := whole line List.mem_cons_self
      have joined := ih fun other member => whole other (List.mem_cons_of_mem line member)
      cases rest with
      | cons second more =>
          rw [List.intercalate_cons_cons, List.append_assoc, List.singleton_append,
            lines_append_feed own_whole]
          exact .cons scans joined
      | nil =>
          cases later
          rw [List.intercalate_singleton]
          by_cases empty : line = []
          · subst empty
            cases scans.unique .nil
            exact .nil
          · rw [lines_of_unbroken own_whole empty]
            exact .cons scans .nil

theorem mem_cut_of_path (scans : Scans text tokens) {path : List Char}
    (member : .path path ∈ tokens) : .path path ∈ cut tokens := by
  induction scans with
  | comment _ => simp at member
  | _ => simp_all <;> grind

theorem path_mem_of_cut {path : List Char} (member : .path path ∈ cut tokens) :
    .path path ∈ tokens := by
  induction tokens with
  | nil => cases member
  | cons token rest ih => cases token <;> simp_all; grind

theorem mem_listed {names : List (List (List Char))} {name : List (List Char)} {word : List Char}
    (listed_name : name ∈ names) (member : word ∈ name) : .word word ∈ listed comma names := by
  induction names with
  | nil => cases listed_name
  | cons first rest ih =>
      have own : name = first → .word word ∈ first.map Token.word := by
        rintro rfl
        exact List.mem_map_of_mem member
      by_cases last : rest = []
      · subst last
        exact List.mem_append_left _ (own (List.mem_singleton.mp listed_name))
      · rw [listed_cons comma first last]
        rcases List.mem_cons.mp listed_name with same | later
        · exact List.mem_append_left _ (own same)
        · exact List.mem_append_right _ (List.mem_cons_of_mem _ (ih later))

theorem mem_of_codeOf {token : Token} (member : token ∈ codeOf tokens) : token ∈ tokens :=
  (List.mem_filter.mp member).1

theorem ScansAll.words (scansAll : ScansAll lines tokens)
    (code : codeOf tokens = declaration.tokens comma semicolon) :
    (∀ name ∈ declaration.names, ∀ word ∈ name, IsToken word) ∧
      ∀ name ∈ declaration.default, IsToken name := by
  constructor
  · intro name listed_name word member
    apply scansAll.isToken (mem_of_codeOf _)
    rw [code]
    simp [Declaration.tokens, mem_listed listed_name member]
  · intro name given
    apply scansAll.isToken (mem_of_codeOf _)
    rw [code]
    simp [Declaration.tokens, Declaration.opening, Option.mem_def.mp given]

theorem path_of_tokens {path : List Char}
    (member : .path path ∈ declaration.tokens comma semicolon) : path = declaration.path := by
  have absent := @path_not_mem_front declaration comma path
  have ends : .path path ∉ closing semicolon := by cases semicolon <;> simp [closing]
  simpa [Declaration.tokens, Declaration.source, absent.1, absent.2, ends] using member

end Lines

section Read

variable {statement : Import}

theorem isRead_of_lines (scansAll : ScansAll lines tokens)
    (code : codeOf tokens = declaration.tokens comma semicolon)
    (plain : ∀ token ∈ betweenBraces tokens, token.isComment = false)
    (single : SingleSpaced declaration.path)
    (read : statement? (squeeze ([' '].intercalate (lines.map trim))) = some statement) :
    declaration.IsRead statement := by
  rcases scansAll.trim with ⟨trimmed, trimmed_scans, silent⟩
  rcases trimmed_scans.join with ⟨joined, joined_scans, joined_cut⟩
  have same_cut : cut joined = cut tokens := by
    rw [joined_cut, ← cut_silent trimmed, silent, cut_silent]
  have paths : ∀ path, .path path ∈ joined → SingleSpaced path := by
    intro path member
    have cut_member := mem_cut_of_path joined_scans member
    rw [same_cut] at cut_member
    have written : .path path ∈ codeOf tokens :=
      List.mem_filter.mpr ⟨path_mem_of_cut cut_member, rfl⟩
    rw [code] at written
    rw [path_of_tokens written]
    exact single
  rcases joined_scans.squeeze paths with ⟨squeezed, squeezed_scans, squeezed_silent⟩
  have squeezed_cut : cut squeezed = cut tokens := by
    rw [← same_cut, ← cut_silent squeezed, squeezed_silent, cut_silent]
  rcases exists_braces code plain with ⟨head, behind, rfl, head_code, behind_code⟩
  exact declared_of_statement? read squeezed_scans (singleSpaced_squeeze _) head_code behind_code
    squeezed_cut

theorem SingleSpaced.unbroken (single : SingleSpaced text) : Unbroken text := by
  intro c member
  rw [Bool.eq_false_iff]
  intro breaks
  rw [single.1 c member (isBlank_of_isLineBreak breaks)] at breaks
  exact absurd breaks (by decide)

theorem unbroken_of_read (read : statement? (squeeze text) = some statement) :
    ∀ line ∈ statement.printed, Unbroken line := by
  have whole : Unbroken (squeeze text) := (singleSpaced_squeeze text).unbroken
  have held := (readsFrom_statement? _ _ read).2.mono fun part inside =>
    whole.of_subset inside.subset
  exact fun line member => Import.framed_unbroken.printed held member

end Read

end Layout

open Layout in
/-- A statement that imports names, on lines with or without comments, is printed again as one that
binds the same names from the same path, or is kept as it is, if its lines are plain. -/
theorem rewriting_keeps_import {code : String} {tokens : List Token} {declaration : Declaration}
    {comma semicolon : Bool} (scanned : scanLines (Text.lines code.toList) = some tokens)
    (named : codeOf tokens = declaration.tokens comma semicolon)
    (plain : IsPlain (Text.lines code.toList) tokens) :
    ∃ kept, States (importsText (splitSource code).imports) kept ∧ kept.path = declaration.path ∧
      ∀ bound, bound ∈ kept.bound ↔ bound ∈ declaration.bound := by
  have scans := scanLines_eq_some_iff.mp scanned
  rcases exists_kept scans plain named
    with ⟨lines, entry, own, ended, inside, own_scans, own_code, braces, keeps, imports⟩
  have whole : ∀ line ∈ lines, Text.Unbroken line :=
    fun line member => Text.unbroken_of_mem_lines (inside member)
  have single : SingleSpaced declaration.path := by
    refine plain.path _ (List.mem_filterMap.mpr ⟨.path declaration.path, mem_of_codeOf ?_, rfl⟩)
    rw [named]
    simp [Declaration.tokens, Declaration.source]
  have text : importsText (splitSource code).imports = entry.text := by
    rw [splitSource, imports, importsText, List.map_singleton, String.intercalate_singleton]
  rw [text]
  rcases keeps with ⟨statement, read, rfl⟩ | rfl
  · have declared := isRead_of_lines own_scans own_code braces single read
    have words := own_scans.words own_code
    have quotable := (ImportText.readsFrom_statement? _ _ read).1
    rcases exists_printed declared quotable words.1 words.2 with ⟨kept, printed, path, bound⟩
    rcases printed.stated with ⟨result, result_scans, stated⟩
    refine ⟨kept, ⟨result, ?_, stated⟩, path, bound⟩
    rw [scanLines_eq_some_iff, ImportEntry.text, Import.text_eq_printed]
    exact result_scans.lines_join (unbroken_of_read read)
  · rcases own_scans.trim with ⟨result, result_scans, silent⟩
    have code_same : codeOf result = declaration.tokens comma ended := by
      rw [← own_code, ← codeOf_silent result, silent, codeOf_silent]
    refine ⟨declaration, ⟨result, ?_, .inl ⟨comma, ended, code_same⟩⟩, rfl, fun _ => Iff.rfl⟩
    rw [scanLines_eq_some_iff, ImportEntry.text, String.toList_ofList]
    apply result_scans.lines_join
    intro line member
    rcases List.mem_map.mp member with ⟨original, listed, rfl⟩
    exact (whole original listed).of_subset (Text.trimWhere_subset _ _)

def storeLayout : String :=
  "// stored\nimport Store, \x7b\n  Pet,\n\tPet, Order as Placed,\n\x7d\n  from './store'\n; // all"

def storeDeclaration : Layout.Declaration where
  onlyType := false
  default := some "Store".toList
  names := [["Pet".toList], ["Pet".toList], ["Order".toList, "as".toList, "Placed".toList]]
  path := "./store".toList
  given := by decide
  apart := by decide

def storeTokens : List Layout.Token :=
  .comment " stored".toList :: storeDeclaration.tokens true true ++ [.comment " all".toList]

open Layout in
theorem rewriting_keeps_import_store :
    ∃ kept, States (importsText (splitSource storeLayout).imports) kept ∧
      kept.path = "./store".toList ∧
      ∀ bound, bound ∈ kept.bound ↔ bound ∈ storeDeclaration.bound := by
  have scanned : scanLines (Text.lines storeLayout.toList) = some storeTokens := by decide
  have named : codeOf storeTokens = storeDeclaration.tokens true true := by decide
  have plain : IsPlain (Text.lines storeLayout.toList) storeTokens := by decide
  exact rewriting_keeps_import scanned named plain

/-- A comment between the braces becomes part of a name, which ends the line that is printed. -/
example : (splitSource "import \x7b\n  a, // first\n  b,\n\x7d from './x';").imports =
    [.item { path := "./x", names := ["a", "// first b"] }] := by
  decide

end TypedClient

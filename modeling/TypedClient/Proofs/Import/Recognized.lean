import TypedClient.Proofs.Import.Declared

namespace TypedClient.Layout

open Text ImportText

variable {text rest : List Char} {tokens others : List Token} {declaration : Declaration}
  {comma semicolon : Bool}

section Tokens

theorem Scans.unique (scans : Scans text tokens) (scans' : Scans text others) : tokens = others :=
  Option.some.inj (scans.scan_eq.symm.trans scans'.scan_eq)

theorem Scans.head_word {c : Char} (scans : Scans (c :: rest) tokens)
    (solid : isWordChar c = true) : ∃ word others, tokens = .word word :: others := by
  have found := scans.scan_eq
  rw [scan, scanFrom, step, start_word solid, Option.bind_some] at found
  rcases Option.map_eq_some_iff.mp found with ⟨more, read, same⟩
  rcases reads_of_scanFrom read with ⟨_, _, later, _, _, _, _, rfl⟩
  exact ⟨_, later, same.symm⟩

theorem Scans.behind_word {word : List Char} (scans : Scans (word ++ rest) tokens)
    (token : IsToken word) (ends : ∀ c ∈ rest.head?, isWordChar c = false) :
    ∃ others, tokens = .word word :: others ∧ Scans rest others := by
  have found := scans.scan_eq
  rw [scan_word token.1 token.2 ends] at found
  rcases Option.map_eq_some_iff.mp found with ⟨others, read, same⟩
  exact ⟨others, same.symm, scan_eq_some_iff.mp read⟩

theorem Scans.behind_mark {m : Char} (scans : Scans (m :: rest) tokens) (mark : isMark m = true) :
    ∃ others, tokens = .mark m :: others ∧ Scans rest others := by
  have found := scans.scan_eq
  rw [scan_mark mark] at found
  rcases Option.map_eq_some_iff.mp found with ⟨others, read, same⟩
  exact ⟨others, same.symm, scan_eq_some_iff.mp read⟩

theorem Scans.behind_blank {c : Char} (scans : Scans (c :: rest) tokens)
    (blank : isBlank c = true) : Scans rest tokens := by
  have found := scans.scan_eq
  rw [scan_blank blank] at found
  exact scan_eq_some_iff.mp found

theorem Scans.behind_spaced {word : List Char} (scans : Scans (word ++ ' ' :: rest) tokens)
    (token : IsToken word) : ∃ others, tokens = .word word :: others ∧ Scans rest others := by
  have ends : ∀ c ∈ (' ' :: rest).head?, isWordChar c = false :=
    fun _ head => Option.mem_some.mp head ▸ by decide
  rcases scans.behind_word token ends with ⟨others, same, behind⟩
  exact ⟨others, same, behind.behind_blank (by decide)⟩

theorem Scans.behind_quote {quote : Char} (scans : Scans (quote :: rest) tokens)
    (opens : isQuote quote = true) :
    ∃ path behind others, rest = path ++ quote :: behind ∧ Content quote path ∧
      tokens = .path path :: others ∧ Scans behind others := by
  have found := scans.scan_eq
  rw [scan, scanFrom, step, start_quote opens, Option.bind_some] at found
  rcases Option.map_eq_some_iff.mp found with ⟨others, read, same⟩
  rcases reads_of_scanFrom read with ⟨path, behind, later, shape, content, scans, rfl⟩
  exact ⟨path, behind, later, shape, content, same.symm, scans⟩

theorem Scans.behind_slash (scans : Scans ('/' :: rest) tokens) :
    ∃ text, rest = '/' :: text ∧ tokens = [.comment text] := by
  have opens : start '/' = some ([], .slash) := by decide
  have found := scans.scan_eq
  rw [scan, scanFrom, step, opens, Option.bind_some] at found
  rcases Option.map_eq_some_iff.mp found with ⟨others, read, same⟩
  rcases reads_of_scanFrom read with ⟨text, shape, rfl⟩
  exact ⟨text, shape, same.symm⟩

theorem isWordChar_of_isFieldChar {c : Char} (inside : Naming.isFieldChar c = true) :
    isWordChar c = true := by
  have blank := isBlank_of_isFieldChar inside
  have quote := isQuote_of_isFieldChar inside
  have mark : isMark c = false := by
    rw [Bool.eq_false_iff]
    intro mark
    rcases mark_cases mark with rfl | rfl | rfl | rfl <;> exact absurd inside (by decide)
  have slash : c ≠ '/' := by
    rintro rfl
    exact absurd inside (by decide)
  simp [isWordChar, blank, mark, quote, slash]

end Tokens

section Source

theorem isQuote_of_isEnd (ends : isEnd text = true) : ∀ c ∈ text, isQuote c = false := by
  have cases : dropBlanks text = [] ∨ dropBlanks text = [';'] := by simpa [isEnd] using ends
  have whole := List.takeWhile_append_dropWhile (p := isBlank) (l := text)
  intro c member
  rw [← whole, List.mem_append] at member
  rcases member with blank | behind
  · exact isQuote_of_isBlank (List.mem_takeWhile_imp blank)
  · rcases cases with nothing | last
    · rw [dropBlanks] at nothing
      rw [nothing] at behind
      cases behind
    · rw [dropBlanks] at last
      rw [last, List.mem_singleton] at behind
      rw [behind]
      decide

theorem path_of_quotedPath? {path : List Char} (quoted : quotedPath? text = some (path, rest))
    (ends : isEnd rest = true) (scans : Scans text tokens) :
    ∃ quote others, isQuote quote = true ∧ Content quote path ∧
      tokens = .path path :: others := by
  rcases quotedPath?_spec quoted with ⟨quotable, opening, closing, opens, closes, shape⟩
  have trimmed := scans.without_leading
  rw [dropBlanks] at shape
  rw [shape] at trimmed
  rcases trimmed.behind_quote opens with ⟨own, behind, others, split, content, found, -⟩
  have same : own = path := by
    rcases List.append_eq_append_iff.mp split.symm with ⟨more, longer, tail⟩ | ⟨more, longer, tail⟩
    · cases more with
      | nil => simpa using longer.symm
      | cons c others =>
          -- the closing quote would stand inside of the path
          have inside : opening ∈ path := by
            rw [longer, (List.cons.inj tail).1]
            simp
          rw [quotable.2 opening inside] at opens
          cases opens
    · cases more with
      | nil => simpa using longer
      | cons c others =>
          -- the closing quote would stand behind the end of the statement
          have inside : opening ∈ rest := by
            rw [(List.cons.inj tail).2]
            simp
          rw [isQuote_of_isEnd ends opening inside] at opens
          cases opens
  exact ⟨opening, others, opens, same ▸ content, same ▸ found⟩

theorem head?_of_quotedPath? {path : List Char} (quoted : quotedPath? text = some (path, rest)) :
    ∀ c ∈ text.head?, isWordChar c = false := by
  rcases quotedPath?_spec quoted with ⟨-, opening, closing, opens, -, shape⟩
  intro c member
  rcases List.head?_eq_some_iff.mp member with ⟨more, rfl⟩
  by_cases blank : isBlank c = true
  · exact isWordChar_of_isBlank blank
  · rw [dropBlanks, List.dropWhile_cons_of_neg blank] at shape
    rw [(List.cons.inj shape).1]
    exact isWordChar_of_isQuote opens

theorem tokens_of_source? {path : String} (read : source? text = some path)
    (scans : Scans text tokens) :
    ∃ quote others, isQuote quote = true ∧ Content quote path.toList ∧
      tokens = .word "from".toList :: .path path.toList :: others := by
  unfold source? at read
  rcases Option.bind_eq_some_iff.mp read with ⟨clause, keyword, read⟩
  rcases Option.bind_eq_some_iff.mp read with ⟨⟨own, tail⟩, quoted, read⟩
  dsimp only at read
  split at read
  · rename_i ends
    cases read
    rw [eq_of_after? keyword] at scans
    rcases scans.behind_word (by decide) (head?_of_quotedPath? quoted)
      with ⟨others, rfl, clause_scans⟩
    rcases path_of_quotedPath? quoted ends clause_scans with ⟨quote, later, opens, content, rfl⟩
    rw [String.toList_ofList]
    exact ⟨quote, later, opens, content, rfl⟩
  · cases read

end Source

section Front

variable {front back : List Token} {token : Token} {m : Char}

/-- A token that is no comment stands where it stands in what is cut. -/
theorem cons_of_cut (own : token.isComment = false) (same : cut tokens = token :: others) :
    ∃ rest, tokens = token :: rest ∧ cut rest = others := by
  cases tokens with
  | nil => cases same
  | cons first rest =>
      cases first with
      | comment text =>
          rw [cut_comment, List.cons.injEq] at same
          rw [← same.1] at own
          cases own
      | _ =>
          rcases List.cons.inj same with ⟨rfl, later⟩
          exact ⟨rest, rfl, later⟩

/-- The first mark of a kind stands where it stands in what is cut. -/
theorem front_of_cut (absent : .mark m ∉ front) (absent' : .mark m ∉ tokens)
    (same : cut (front ++ .mark m :: back) = tokens ++ .mark m :: others) :
    front = tokens ∧ cut back = others := by
  induction front generalizing tokens with
  | nil =>
      cases tokens with
      | nil => exact ⟨rfl, (List.cons.inj same).2⟩
      | cons first rest => exact absurd ((List.cons.inj same).1 ▸ List.mem_cons_self) absent'
  | cons first rest ih =>
      have absent_later : .mark m ∉ rest := fun member => absent (List.mem_cons_of_mem first member)
      cases tokens with
      | nil =>
          cases first with
          | comment text => cases same
          | _ =>
              have own := (List.cons.inj same).1
              exact absurd (own ▸ List.mem_cons_self) absent
      | cons other more =>
          have absent_more : .mark m ∉ more :=
            fun member => absent' (List.mem_cons_of_mem other member)
          cases first with
          | comment text => cases more <;> cases same
          | _ =>
              rcases List.cons.inj same with ⟨rfl, later⟩
              rcases ih absent_later absent_more later with ⟨rfl, behind⟩
              exact ⟨rfl, behind⟩

end Front

section Braces

/-- The names between braces and the path behind them are those that the tokens declare. -/
theorem declared_of_braced? {names : List String} {path : String}
    (read : braced? text = some (names, path)) (scans : Scans text (.mark '\x7b' :: tokens))
    (single : SingleSpaced text) {behind : List Token}
    (cuts : cut tokens = listed comma declaration.names ++ .mark '\x7d' :: cut behind)
    (code : codeOf behind = declaration.source semicolon) :
    names = declaration.names.map nameText ∧ path.toList = declaration.path ∧
      ∃ quote, isQuote quote = true ∧ Content quote declaration.path := by
  unfold braced? at read
  rcases Option.bind_eq_some_iff.mp read with ⟨inner, opening, read⟩
  dsimp only at read
  rcases Option.bind_eq_some_iff.mp read with ⟨rest, closing, read⟩
  rcases Option.bind_eq_some_iff.mp read with ⟨found, source, read⟩
  cases read
  obtain rfl : text = '\x7b' :: inner := eq_of_after? opening
  rcases scans.behind_mark (by decide) with ⟨own, same, inner_scans⟩
  rw [← (List.cons.inj same).2] at inner_scans
  have listing : Listing '\x7d' (listed comma declaration.names) :=
    listing_listed (by decide) comma declaration.names
  rcases inner_scans.split_mark (by decide) listing cuts
    with ⟨front, back, tail, rfl, absent, front_scans, back_scans, tail_cuts⟩
  have taken : (front ++ '\x7d' :: back).takeWhile (· != '\x7d') = front := by
    apply takeWhile_of_stop
    · intro c member
      rw [bne_iff_ne]
      rintro rfl
      exact absent member
    · simp
  rw [taken, List.drop_left] at closing
  rw [taken]
  obtain rfl : back = rest := (List.cons.inj (eq_of_after? closing)).2
  have front_single : SingleSpaced front := single.tail.of_infix (List.prefix_append _ _).isInfix
  rcases tokens_of_source? source back_scans.without_leading
    with ⟨quote, others, opens, content, rfl⟩
  rcases cons_of_cut rfl tail_cuts.symm with ⟨rest, rfl, rest_cuts⟩
  rcases cons_of_cut rfl rest_cuts with ⟨rest, rfl, -⟩
  have same_path : path.toList = declaration.path := by
    simpa [Declaration.source] using (List.cons.inj (List.cons.inj code).2).1
  exact ⟨splitNames_listed declaration.given front_scans front_single, same_path, quote, opens,
    same_path ▸ content⟩

end Braces

section Forms

variable {statement : Import}

theorem isIdentifier_of_name? {name : List Char} (found : name? text = some (name, rest)) :
    IsIdentifier name :=
  ⟨(name?_spec found).1, (name?_spec found).2.1⟩

/-- A name in front of what no word goes on with is a token. -/
theorem behind_name {name : List Char} (identifier : IsIdentifier name)
    (ends : ∀ c ∈ rest.head?, isWordChar c = false) (scans : Scans (name ++ rest) tokens) :
    ∃ others, tokens = .word name :: others ∧ Scans rest others :=
  scans.behind_word ⟨identifier.1,
    fun c member => isWordChar_of_isFieldChar (identifier.2 c member)⟩ ends

theorem ends_of_mark {m : Char} (mark : isMark m = true) {more : List Char}
    (shape : dropBlanks text = m :: more) : ∀ c ∈ text.head?, isWordChar c = false := by
  intro c member
  rcases List.head?_eq_some_iff.mp member with ⟨others, rfl⟩
  by_cases blank : isBlank c = true
  · exact isWordChar_of_isBlank blank
  · rw [dropBlanks, List.dropWhile_cons_of_neg blank] at shape
    rw [(List.cons.inj shape).1]
    exact isWordChar_of_isMark mark

theorem head_of_braced? {names : List String} {path : String}
    (read : braced? text = some (names, path)) : ∃ inner, text = '\x7b' :: inner := by
  rcases Option.bind_eq_some_iff.mp read with ⟨inner, opening, -⟩
  exact ⟨inner, eq_of_after? opening⟩

/-- What stands in front of the braces: nothing, or a default import. -/
def front (statement : Import) : List Token :=
  statement.defaultName.toList.flatMap fun name => [.word name.toList, .mark ',']

theorem mark_not_mem_front : .mark '\x7b' ∉ front statement := by
  simp [front]

theorem tokens_of_named? (read : named? text = some statement) (scans : Scans text tokens) :
    statement.onlyType = false ∧ statement.asName = none ∧
      ∃ part others, part <:+: text ∧ braced? part = some (statement.names, statement.path) ∧
        Scans part (.mark '\x7b' :: others) ∧
        tokens = front statement ++ .mark '\x7b' :: others := by
  unfold named? at read
  split at read
  · rename_i names path braces
    cases read
    rcases head_of_braced? braces with ⟨inner, rfl⟩
    rcases scans.behind_mark (by decide) with ⟨others, rfl, -⟩
    exact ⟨rfl, rfl, _, others, List.infix_refl _, braces, scans, rfl⟩
  · rcases Option.bind_eq_some_iff.mp read with ⟨⟨default, behind⟩, named, read⟩
    rcases Option.bind_eq_some_iff.mp read with ⟨more, comma, read⟩
    rcases Option.bind_eq_some_iff.mp read with ⟨⟨names, path⟩, braces, read⟩
    cases read
    obtain ⟨-, -, rfl⟩ := name?_spec named
    have shape : dropBlanks behind = ',' :: more := eq_of_after? comma
    rcases behind_name (isIdentifier_of_name? named) (ends_of_mark (by decide) shape) scans
      with ⟨tail, rfl, behind_scans⟩
    have comma_scans := behind_scans.without_leading
    rw [← dropBlanks, shape] at comma_scans
    rcases comma_scans.behind_mark (by decide) with ⟨tail, rfl, more_scans⟩
    have braced_scans := more_scans.without_leading
    rcases head_of_braced? braces with ⟨inner, opened⟩
    rw [← dropBlanks] at braced_scans
    have known := braced_scans
    rw [opened] at known
    rcases known.behind_mark (by decide) with ⟨others, rfl, -⟩
    refine ⟨rfl, rfl, dropBlanks more, others, ?_, braces, braced_scans, ?_⟩
    · have inside : dropBlanks more <:+: dropBlanks behind :=
        infix_of_after? comma (infix_dropBlanks (List.infix_refl _))
      exact (infix_dropBlanks inside).trans (List.suffix_append _ _).isInfix
    · simp [front]

theorem tokens_of_namespace? (read : namespace? text = some statement) (scans : Scans text tokens) :
    ∃ first second others, tokens = .word first :: .word second :: others := by
  unfold namespace? at read
  rcases Option.bind_eq_some_iff.mp read with ⟨start, star, -⟩
  rw [eq_of_after? star] at scans
  have shape : "* as ".toList ++ start = "*".toList ++ ' ' :: ("as".toList ++ ' ' :: start) := rfl
  rw [shape] at scans
  rcases scans.behind_spaced (by decide) with ⟨tail, rfl, tail_scans⟩
  rcases tail_scans.behind_spaced (by decide) with ⟨others, rfl, -⟩
  exact ⟨_, _, others, rfl⟩

theorem tokens_of_default? (read : default? text = some statement) (scans : Scans text tokens) :
    ∃ first second others, tokens = .word first :: .word second :: others := by
  unfold default? at read
  rcases Option.bind_eq_some_iff.mp read with ⟨⟨name, behind⟩, named, read⟩
  rcases Option.bind_eq_some_iff.mp read with ⟨more, blank, read⟩
  rcases Option.bind_eq_some_iff.mp read with ⟨path, source, -⟩
  obtain ⟨-, -, rfl⟩ := name?_spec named
  obtain rfl : behind = ' ' :: more := eq_of_after? blank
  rcases behind_name (isIdentifier_of_name? named) (by simp; decide) scans
    with ⟨others, rfl, behind_scans⟩
  rcases tokens_of_source? source (behind_scans.behind_blank (by decide)) with ⟨-, more, -, -, rfl⟩
  exact ⟨name, _, _, rfl⟩

end Forms

structure Declaration.IsRead (declaration : Declaration) (statement : Import) : Prop where
  path : statement.path.toList = declaration.path
  onlyType : statement.onlyType = declaration.onlyType
  default : statement.defaultName.map String.toList = declaration.default
  space : statement.asName = none
  names : statement.names = declaration.names.map nameText
  quoted : ∃ quote, isQuote quote = true ∧ Content quote declaration.path

section Statement

variable {statement : Import} {head inside behind : List Token}

theorem typedOrNot_cases {form : List Char → Option Import}
    (read : typedOrNot form text = some statement) :
    form text = some statement ∨ ∃ rest found, text = "type ".toList ++ rest ∧
      form rest = some found ∧ statement = { found with onlyType := true } := by
  unfold typedOrNot at read
  split at read
  · rename_i found typed
    rcases Option.bind_eq_some_iff.mp typed with ⟨rest, keyword, formed⟩
    cases read
    exact .inr ⟨rest, found, eq_of_after? keyword, formed, rfl⟩
  · exact .inl read

theorem behind_type (scans : Scans ("type ".toList ++ rest) tokens) :
    ∃ others, tokens = .word "type".toList :: others ∧ Scans rest others := by
  have shape : "type ".toList ++ rest = "type".toList ++ ' ' :: rest := rfl
  rw [shape] at scans
  exact scans.behind_spaced (by decide)

/-- What stands between the keyword and the braces tells types and the default import. -/
theorem opening_inj {typed : Bool}
    (same : declaration.opening =
      (if typed then [.word "type".toList] else []) ++ front statement) :
    typed = declaration.onlyType ∧
      statement.defaultName.map String.toList = declaration.default := by
  have apart := declaration.apart
  unfold Declaration.opening front at same
  cases default : declaration.default <;> cases own : statement.defaultName <;>
    cases kind : declaration.onlyType <;> cases typed <;>
    simp_all

/-- Nothing stands there, or a word with a comma behind it or without one. -/
theorem opening_cases (declaration : Declaration) : declaration.opening = [] ∨
    ∃ word rest, declaration.opening = .word word :: rest ∧ (rest = [] ∨ rest = [.mark ',']) := by
  have apart := declaration.apart
  unfold Declaration.opening
  cases default : declaration.default <;> cases kind : declaration.onlyType <;> simp_all

theorem mark_not_mem_opening : .mark '\x7b' ∉ declaration.opening := by
  rcases opening_cases declaration with none | ⟨word, rest, shape, rfl | rfl⟩
  · simp [none]
  · simp [shape]
  · simp [shape]

theorem path_not_mem_front (comma : Bool) (path : List Char) :
    .path path ∉ declaration.opening ∧ .path path ∉ listed comma declaration.names := by
  constructor
  · rcases opening_cases declaration with none | ⟨word, rest, shape, rfl | rfl⟩
    · simp [none]
    · simp [shape]
    · simp [shape]
  · intro member
    rcases listing_listed (by decide : ',' ≠ ';') comma declaration.names _ member
      with ⟨word, same⟩ | ⟨c, same, -⟩ <;> cases same

theorem not_two_words (code : codeOf head = declaration.opening) (first second : List Char) :
    cut (head ++ .mark '\x7b' :: inside) ≠ .word first :: .word second :: others := by
  intro same
  rcases cons_of_cut rfl same with ⟨rest, shape, rest_cuts⟩
  rcases cons_of_cut rfl rest_cuts with ⟨rest, rfl, -⟩
  have codes := congrArg codeOf shape
  rw [codeOf_append, code] at codes
  rcases opening_cases declaration with none | ⟨word, later, opening, rfl | rfl⟩
  · simp [none] at codes
  · simp [opening] at codes
  · simp [opening] at codes

/-- Named imports, of types or not, are read as they are declared. -/
theorem declared_of_named? (read : typedOrNot named? text = some statement)
    (scans : Scans text tokens) (single : SingleSpaced text)
    (head_code : codeOf head = declaration.opening)
    (behind_code : codeOf behind = declaration.source semicolon)
    (cuts : cut tokens = cut (head ++ .mark '\x7b' ::
      (listed comma declaration.names ++ .mark '\x7d' :: behind))) :
    declaration.IsRead statement := by
  -- the form behind the word for types, or without it
  obtain ⟨typed, found, own, whole, part, others, kind, space, inside, braces, part_scans, split⟩ :
      ∃ (typed : Bool) (found : Import) (own : List Token),
        statement = { found with onlyType := typed } ∧
        ∃ part others, tokens = (if typed then [.word "type".toList] else []) ++ own ∧
          found.asName = none ∧ part <:+: text ∧ braced? part = some (found.names, found.path) ∧
          Scans part (.mark '\x7b' :: others) ∧ own = front found ++ .mark '\x7b' :: others := by
    rcases typedOrNot_cases read with plain | ⟨rest, found, rfl, formed, rfl⟩
    · rcases tokens_of_named? plain scans with ⟨kind, space, part, others, inside, braces, found⟩
      exact ⟨false, statement, tokens, by rw [← kind], part, others, rfl, space, inside, braces,
        found⟩
    · rcases behind_type scans with ⟨own, rfl, rest_scans⟩
      rcases tokens_of_named? formed rest_scans with ⟨-, space, part, others, inside, braces, shape⟩
      exact ⟨true, found, own, rfl, part, others, rfl, space,
        inside.trans (List.suffix_append _ _).isInfix, braces, shape⟩
  have code : ∀ token ∈ (if typed then [.word "type".toList] else []) ++ front found,
      token.isComment = false := by
    cases typed <;> simp [front, Token.isComment] <;> grind
  have absent : .mark '\x7b' ∉ (if typed then [.word "type".toList] else []) ++ front found := by
    cases typed <;> simp [mark_not_mem_front]
  have absent_head : .mark '\x7b' ∉ head := by
    intro member
    have opened : .mark '\x7b' ∈ codeOf head := List.mem_filter.mpr ⟨member, rfl⟩
    rw [head_code] at opened
    exact mark_not_mem_opening opened
  rw [kind, split, ← List.append_assoc, cut_append code, cut_mark] at cuts
  rcases front_of_cut absent_head absent cuts.symm with ⟨rfl, later⟩
  rw [cut_append (listing_listed (by decide : ',' ≠ ';') comma _).code, cut_mark] at later
  have opening : declaration.opening =
      (if typed then [.word "type".toList] else []) ++ front found := by
    rw [← head_code, codeOf, List.filter_eq_self]
    simpa using code
  rcases opening_inj opening with ⟨same_type, same_default⟩
  rcases declared_of_braced? braces part_scans (single.of_infix inside) later.symm behind_code
    with ⟨names, path, quoted⟩
  subst whole
  exact ⟨path, same_type, same_default, space, names, quoted⟩

/-- Other forms of statements are not read where braces stand. -/
theorem not_read_of_two_words {form : List Char → Option Import}
    (two : ∀ {text tokens statement}, form text = some statement → Scans text tokens →
      ∃ first second others, tokens = .word first :: .word second :: others)
    (scans : Scans text tokens) (head_code : codeOf head = declaration.opening)
    (cuts : cut tokens = cut (head ++ .mark '\x7b' :: inside)) :
    typedOrNot form text ≠ some statement := by
  intro read
  rcases typedOrNot_cases read with plain | ⟨rest, found, rfl, formed, -⟩
  · rcases two plain scans with ⟨first, second, others, rfl⟩
    exact not_two_words head_code first second cuts.symm
  · rcases behind_type scans with ⟨own, rfl, rest_scans⟩
    rcases two formed rest_scans with ⟨first, second, others, rfl⟩
    exact not_two_words head_code _ first cuts.symm

/-- A statement that is read of the tokens of a declaration, with no comment between its braces,
brings in what is declared. -/
theorem declared_of_statement? (read : statement? text = some statement)
    (scans : Scans text tokens) (single : SingleSpaced text)
    (head_code : codeOf head = .word "import".toList :: declaration.opening)
    (behind_code : codeOf behind = declaration.source semicolon)
    (cuts : cut tokens = cut (head ++ .mark '\x7b' ::
      (listed comma declaration.names ++ .mark '\x7d' :: behind))) :
    declaration.IsRead statement := by
  unfold statement? at read
  rcases Option.bind_eq_some_iff.mp read with ⟨body, keyword, chosen⟩
  have spelled : text = "import".toList ++ ' ' :: body := by
    rw [eq_of_after? keyword]
    rfl
  rw [spelled] at scans single
  rcases scans.behind_spaced (by decide) with ⟨own, rfl, body_scans⟩
  have body_single : SingleSpaced body :=
    single.of_infix ((List.suffix_cons ' ' body).trans (List.suffix_append _ _)).isInfix
  rcases cons_of_cut rfl cuts.symm with ⟨rest, shape, own_cuts⟩
  obtain ⟨rest_head, rfl⟩ : ∃ rest_head, head = .word "import".toList :: rest_head := by
    cases head with
    | nil => cases head_code
    | cons token more => exact ⟨more, by rw [(List.cons.inj shape).1]⟩
  have rest_code : codeOf rest_head = declaration.opening := (List.cons.inj head_code).2
  rw [← (List.cons.inj shape).2] at own_cuts
  split at chosen
  · rename_i found
    cases chosen
    exact declared_of_named? found body_scans body_single rest_code behind_code own_cuts.symm
  · rename_i found
    cases chosen
    exact absurd found
      (not_read_of_two_words tokens_of_namespace? body_scans rest_code own_cuts.symm)
  · exact absurd (Option.filter_eq_some_iff.mp chosen).1
      (not_read_of_two_words tokens_of_default? body_scans rest_code own_cuts.symm)

end Statement

end TypedClient.Layout

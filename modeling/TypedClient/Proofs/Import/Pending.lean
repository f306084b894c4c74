import TypedClient.Proofs.Import.Recognized

namespace TypedClient.Layout

open Text ImportText

def Token.isPath : Token → Bool
  | .path _ => true
  | _ => false

def Token.comment? : Token → Option (List Char)
  | .comment text => some text
  | _ => none

def Token.path? : Token → Option (List Char)
  | .path text => some text
  | _ => none

/-- Whether a text, the last character first, ends with the word `from` and blanks. -/
def asks (before : List Char) : Bool :=
  match after? "morf" (dropBlanks before) with
  | some front => !front.head?.any isWord
  | none => false

def quotesSource : List Char → List Char → Bool
  | _, [] => false
  | before, c :: rest => (isQuote c && asks before) || quotesSource (c :: before) rest

variable {text front back rest before : List Char} {lines : List (List Char)}
  {tokens others : List Token} {declaration : Declaration} {comma semicolon : Bool}

section Guarded

theorem asks_of_quote (silent : quotesSource before text = false) {quote : Char}
    (shape : text = front ++ quote :: back) (opens : isQuote quote = true) :
    asks (front.reverse ++ before) = false := by
  induction front generalizing text before with
  | nil =>
      subst shape
      rw [List.nil_append, quotesSource, opens, Bool.true_and, Bool.or_eq_false_iff] at silent
      exact silent.1
  | cons c more ih =>
      subst shape
      rw [List.cons_append, quotesSource, Bool.or_eq_false_iff] at silent
      have later := ih silent.2 rfl
      rwa [List.reverse_cons, List.append_assoc]

/-- Each quote stands in a comment, and there not behind the word `from`. -/
def Guarded (text : List Char) : Prop :=
  ∀ front quote back, text = front ++ quote :: back → isQuote quote = true →
    ∃ before part, front = before ++ '/' :: part ∧ asks part.reverse = false

theorem guarded_of_none (plain : ∀ c ∈ text, isQuote c = false) : Guarded text := by
  rintro front quote back rfl opens
  rw [plain quote (by simp)] at opens
  cases opens

theorem guarded_single {c : Char} (plain : isQuote c = false) : Guarded [c] :=
  guarded_of_none fun _ member => List.mem_singleton.mp member ▸ plain

theorem Guarded.append (guarded : Guarded front) (guarded' : Guarded back) :
    Guarded (front ++ back) := by
  intro start quote rest shape opens
  rcases List.append_eq_append_iff.mp shape with ⟨more, rfl, tail⟩ | ⟨more, rfl, tail⟩
  · rcases guarded' more quote rest tail opens with ⟨before, part, rfl, silent⟩
    exact ⟨front ++ before, part, by simp, silent⟩
  · cases more with
    | nil =>
        rcases guarded' [] quote rest (by simpa using tail.symm) opens with ⟨before, part, none, -⟩
        exact absurd none (by simp)
    | cons c others =>
        rcases List.cons.inj tail with ⟨rfl, -⟩
        exact guarded start quote others rfl opens

theorem Guarded.join (guarded : ∀ line ∈ lines, Guarded line) :
    Guarded ([' '].intercalate lines) := by
  induction lines with
  | nil => exact guarded_of_none (by simp)
  | cons line rest ih =>
      have own := guarded line List.mem_cons_self
      have later := ih fun other member => guarded other (List.mem_cons_of_mem line member)
      cases rest with
      | nil => simpa using own
      | cons second more =>
          rw [List.intercalate_cons_cons]
          exact (own.append (guarded_of_none (forall_of_all (by decide)))).append later

theorem Guarded.trim (guarded : Guarded text) : Guarded (trim text) := by
  rcases exists_trimWhere isBlank text with ⟨lead, trail, blank, -, shape⟩
  intro front quote back split opens
  have whole : text = (lead ++ front) ++ quote :: (back ++ trail) := by
    rw [shape, ← Text.trim, split]
    simp
  rcases guarded _ quote _ whole opens with ⟨before, part, same, silent⟩
  rcases List.append_eq_append_iff.mp same with ⟨more, rfl, tail⟩ | ⟨more, rfl, tail⟩
  · exact ⟨more, part, tail, silent⟩
  · cases more with
    | nil => exact ⟨[], part, by simpa using tail.symm, silent⟩
    | cons c others =>
        rcases List.cons.inj tail with ⟨rfl, -⟩
        exact absurd (blank '/' (by simp)) (by decide)

theorem Scans.guarded (scans : Scans text tokens) (pathless : ∀ path, .path path ∉ tokens)
    (silent : ∀ comment, .comment comment ∈ tokens → quotesSource [] comment = false) :
    Guarded text := by
  induction scans with
  | nil => exact guarded_of_none (by simp)
  | blank blank _ ih =>
      exact (guarded_single (isQuote_of_isBlank blank)).append (ih pathless silent)
  | mark mark _ ih =>
      exact (guarded_single (isQuote_of_isMark mark)).append
        (ih (fun path member => pathless path (List.mem_cons_of_mem _ member))
          fun comment member => silent comment (List.mem_cons_of_mem _ member))
  | word given solid ends _ ih =>
      have own := guarded_of_none fun c member => (isWordChar_spec (solid c member)).2.2.1
      exact own.append (ih (fun path member => pathless path (List.mem_cons_of_mem _ member))
        fun comment member => silent comment (List.mem_cons_of_mem _ member))
  | path _ _ _ _ => exact absurd List.mem_cons_self (pathless _)
  | comment own =>
      intro front quote back shape opens
      cases front with
      | nil =>
          rw [← (List.cons.inj shape).1] at opens
          exact absurd opens (by decide)
      | cons c more =>
          have tail := (List.cons.inj shape).2
          rw [← (List.cons.inj shape).1]
          cases more with
          | nil =>
              rw [← (List.cons.inj tail).1] at opens
              exact absurd opens (by decide)
          | cons d part =>
              rw [← (List.cons.inj tail).1]
              have quiet :=
                asks_of_quote (silent own List.mem_cons_self) (List.cons.inj tail).2 opens
              exact ⟨['/'], part, rfl, by simpa using quiet⟩

theorem exists_of_holdsSource {previous : Option Char} (held : holdsSource previous text = true) :
    ∃ front clause, text = front ++ ("from".toList ++ clause) ∧
      (front.getLast? <|> previous).any isWord = false ∧ (quotedPath? clause).isSome = true := by
  induction text generalizing previous with
  | nil => cases held
  | cons c rest ih =>
      rw [holdsSource, Bool.or_eq_true, Bool.and_eq_true] at held
      rcases held with ⟨boundary, found⟩ | later
      · cases keyword : after? "from" (c :: rest) with
        | none => simp [keyword] at found
        | some clause =>
            rw [keyword, Option.bind_some] at found
            exact ⟨[], clause, eq_of_after? keyword, by simpa using boundary, found⟩
      · rcases ih later with ⟨front, clause, rfl, boundary, found⟩
        refine ⟨c :: front, clause, rfl, ?_, found⟩
        cases front with
        | nil => simpa using boundary
        | cons d more =>
            rw [List.getLast?_cons_cons]
            cases last : (d :: more).getLast? with
            | none => simp at last
            | some e => simpa [last] using boundary

theorem exists_of_quotedPath? (quoted : (quotedPath? text).isSome = true) :
    ∃ gap quote behind, text = gap ++ quote :: behind ∧ (∀ c ∈ gap, isBlank c = true) ∧
      isQuote quote = true := by
  rcases Option.isSome_iff_exists.mp quoted with ⟨⟨path, tail⟩, found⟩
  rcases quotedPath?_spec found with ⟨-, opening, closing, opens, -, shape⟩
  refine ⟨text.takeWhile isBlank, opening, path ++ closing :: tail, ?_, ?_, opens⟩
  · rw [← shape]
    exact List.takeWhile_append_dropWhile.symm
  · exact fun c member => List.mem_takeWhile_imp member

theorem slash_not_mem_gap {gap : List Char} (blank : ∀ c ∈ gap, isBlank c = true) : '/' ∉ gap :=
  fun member => absurd (blank '/' member) (by decide)

theorem asks_from {gap : List Char} (blank : ∀ c ∈ gap, isBlank c = true) (front : List Char) :
    asks (front ++ ("from".toList ++ gap)).reverse = !front.getLast?.any isWord := by
  have turned : (front ++ ("from".toList ++ gap)).reverse =
      gap.reverse ++ ("morf".toList ++ front.reverse) := by simp
  have skipped : dropBlanks (gap.reverse ++ ("morf".toList ++ front.reverse)) =
      "morf".toList ++ front.reverse := by
    rw [dropBlanks, List.dropWhile_append_of_pos (by simpa using blank)]
    exact List.dropWhile_cons_of_neg (by decide)
  rw [asks, turned, skipped, after?_append]
  dsimp only
  rw [List.head?_reverse]

theorem holdsSource_of_guarded (guarded : Guarded text) : holdsSource none text = false := by
  rw [Bool.eq_false_iff]
  intro held
  rcases exists_of_holdsSource held with ⟨front, clause, rfl, boundary, found⟩
  rcases exists_of_quotedPath? found with ⟨gap, quote, behind, rfl, blank, opens⟩
  rcases guarded (front ++ ("from".toList ++ gap)) quote behind (by simp) opens
    with ⟨before, part, split, silent⟩
  have slashless : '/' ∉ "from".toList ++ gap := by
    rw [List.mem_append, not_or]
    exact ⟨by decide, slash_not_mem_gap blank⟩
  -- the comment has begun in front of the word, so it asks for a source itself
  rcases List.append_eq_append_iff.mp split with ⟨more, -, tail⟩ | ⟨more, rfl, tail⟩
  · rw [tail] at slashless
    exact slashless (by simp)
  · cases more with
    | nil =>
        rw [List.nil_append] at tail
        rw [← tail] at slashless
        exact slashless (by simp)
    | cons c others =>
        obtain ⟨rfl, rfl⟩ : '/' = c ∧ part = others ++ ("from".toList ++ gap) := List.cons.inj tail
        rw [asks_from blank] at silent
        cases last : others.getLast? with
        | none => simp [last] at silent
        | some e =>
            have ended : (before ++ '/' :: others).getLast? = some e := by
              rw [List.getLast?_append_of_ne_nil _ (by simp), List.getLast?_cons, last]
              rfl
            rw [ended] at boundary
            rw [last] at silent
            simp_all

theorem isComplete_of_guarded (guarded : Guarded text) : isComplete text = false := by
  have alone : isSideEffect text = false := by
    rw [Bool.eq_false_iff]
    intro side
    unfold isSideEffect at side
    cases keyword : after? "import" text with
    | none => simp [keyword] at side
    | some clause =>
        have found : (quotedPath? clause).isSome = true := by
          cases quoted : quotedPath? clause with
          | none => simp [keyword, quoted] at side
          | some found => rfl
        rcases exists_of_quotedPath? found with ⟨gap, quote, behind, rfl, blank, opens⟩
        have shape : text = ("import".toList ++ gap) ++ quote :: behind := by
          rw [eq_of_after? keyword, List.append_assoc]
        rcases guarded _ quote behind shape opens with ⟨before, part, split, -⟩
        have slashless : '/' ∉ "import".toList ++ gap := by
          rw [List.mem_append, not_or]
          exact ⟨by decide, slash_not_mem_gap blank⟩
        rw [split] at slashless
        exact slashless (by simp)
  rw [isComplete, holdsSource_of_guarded guarded, alone]
  rfl

end Guarded

section Splitting

def Keeps (entry : ImportEntry) (lines : List (List Char)) : Prop :=
  (∃ statement, statement? (squeeze ([' '].intercalate lines)) = some statement ∧
    entry = .item statement) ∨ entry = .verbatim (String.ofList (['\n'].intercalate lines))

theorem keeps_ofLines (lines : List (List Char)) : Keeps (.ofLines lines) lines := by
  unfold Keeps ImportEntry.ofLines ImportEntry.parse squeeze
  cases statement? ([' '].intercalate (words ([' '].intercalate lines))) with
  | none => exact .inr rfl
  | some statement => exact .inl ⟨statement, rfl, rfl⟩

variable {pending : List (List Char)} {line : List Char}

theorem imports_splitLines (opened : pending ≠ [] ∨ opens (trim line) = true)
    (rest : List (List Char)) :
    (splitLines pending (line :: rest)).imports =
      if isComplete ([' '].intercalate (pending.reverse ++ [trim line])) = true then
        .ofLines (pending.reverse ++ [trim line]) :: (splitLines [] rest).imports
      else (splitLines (trim line :: pending) rest).imports := by
  have goes : (pending.isEmpty && !opens (trim line)) = false := by
    rcases opened with given | opened
    · simp [given]
    · simp [opened]
  rw [splitLines, if_neg (by simp [goes])]
  dsimp only
  rw [List.reverse_cons]
  split <;> rfl

theorem splitLines_open (opened : pending ≠ [] ∨ opens (trim line) = true)
    (rest : List (List Char)) :
    ∃ kept left entry, line :: rest = kept ++ left ∧
      Keeps entry (pending.reverse ++ kept.map trim) ∧
      (isComplete ([' '].intercalate (pending.reverse ++ kept.map trim)) = true ∨ left = []) ∧
      (splitLines pending (line :: rest)).imports = entry :: (splitLines [] left).imports := by
  induction rest generalizing pending line with
  | nil =>
      by_cases complete : isComplete ([' '].intercalate (pending.reverse ++ [trim line])) = true
      · exact ⟨[line], [], _, rfl, keeps_ofLines _, .inl complete,
          by rw [imports_splitLines opened, if_pos complete]; rfl⟩
      · refine ⟨[line], [], _, rfl, .inr rfl, .inr rfl, ?_⟩
        rw [imports_splitLines opened, if_neg complete]
        simp [splitLines]
  | cons second more ih =>
      by_cases complete : isComplete ([' '].intercalate (pending.reverse ++ [trim line])) = true
      · exact ⟨[line], second :: more, _, rfl, keeps_ofLines _, .inl complete,
          by rw [imports_splitLines opened, if_pos complete]; rfl⟩
      · have further : trim line :: pending ≠ [] ∨ opens (trim second) = true :=
          .inl (List.cons_ne_nil _ _)
        rcases ih further with ⟨kept, left, entry, split, keeps, completes, imports⟩
        have longer : (trim line :: pending).reverse ++ kept.map trim =
            pending.reverse ++ (line :: kept).map trim := by simp
        rw [longer] at keeps completes
        refine ⟨line :: kept, left, entry, by rw [split]; rfl, keeps, completes, ?_⟩
        rw [imports_splitLines opened, if_neg complete, imports]

theorem imports_splitLines_shut (shut : opens (trim line) = false) (rest : List (List Char)) :
    (splitLines [] (line :: rest)).imports = (splitLines [] rest).imports := by
  rw [splitLines]
  simp [shut]

end Splitting

section Lines

theorem ScansAll.of_append {others : List (List Char)}
    (scansAll : ScansAll (lines ++ others) tokens) :
    ∃ own later, tokens = own ++ later ∧ ScansAll lines own ∧ ScansAll others later := by
  induction lines generalizing tokens with
  | nil => exact ⟨[], tokens, rfl, .nil, scansAll⟩
  | cons line rest ih =>
      cases scansAll with
      | cons scans behind =>
          rcases ih behind with ⟨own, later, rfl, front, back⟩
          exact ⟨_, later, (List.append_assoc _ _ _).symm, .cons scans front, back⟩

theorem Scans.code_head {token : Token} (scans : Scans text tokens)
    (code : codeOf tokens = token :: others) :
    ∃ rest, tokens = token :: rest ∧ codeOf rest = others := by
  induction scans with
  | nil => cases code
  | blank _ _ ih => exact ih code
  | comment _ => cases code
  | _ =>
      rcases List.cons.inj code with ⟨rfl, same⟩
      exact ⟨_, rfl, same⟩

/-- A text that begins with no blank begins with its first word. -/
theorem Scans.front_word {word : List Char} (scans : Scans text (.word word :: others))
    (solid : ∀ c ∈ text.head?, isBlank c = false) :
    ∃ rest, text = word ++ rest ∧ (∀ c ∈ rest.head?, isWordChar c = false) ∧ Scans rest others := by
  cases scans with
  | blank blank _ =>
      rw [solid _ rfl] at blank
      cases blank
  | word _ _ ends scans => exact ⟨_, rfl, ends, scans⟩

theorem head_of_opens (opened : opens text = true) : ∃ rest, text = 'i' :: rest := by
  unfold opens at opened
  cases keyword : after? "import" text with
  | none => simp [keyword] at opened
  | some rest => exact ⟨_, eq_of_after? keyword⟩

theorem opens_of_wordless (scans : Scans line tokens) (wordless : ∀ word, .word word ∉ tokens) :
    opens (trim line) = false := by
  rw [Bool.eq_false_iff]
  intro opened
  rcases head_of_opens opened with ⟨rest, shape⟩
  rcases scans.trim with ⟨others, trimmed, silent⟩
  rw [shape] at trimmed
  rcases trimmed.head_word (by decide) with ⟨word, later, rfl⟩
  have member : Token.silent (.word word) ∈ tokens.map Token.silent := by
    rw [← silent]
    exact List.mem_cons_self
  rcases List.mem_map.mp member with ⟨token, inside, same⟩
  cases token with
  | word other => exact wordless other inside
  | _ => cases same

theorem imports_of_wordless (scansAll : ScansAll lines tokens)
    (wordless : ∀ word, .word word ∉ tokens) : (splitLines [] lines).imports = [] := by
  induction scansAll with
  | nil => rfl
  | cons scans _ ih =>
      have own := opens_of_wordless scans fun word member =>
        wordless word (List.mem_append_left _ member)
      rw [imports_splitLines_shut own]
      exact ih fun word member => wordless word (List.mem_append_right _ member)

end Lines

def betweenBraces (tokens : List Token) : List Token :=
  (tokens.dropWhile (· != .mark '\x7b')).takeWhile (· != .mark '\x7d')

def beforePath (tokens : List Token) : List Token := tokens.takeWhile (!·.isPath)

/-- What lines obey whose statement is read as it is written. -/
structure IsPlain (lines : List (List Char)) (tokens : List Token) : Prop where
  /-- The keyword is neither alone on its line nor followed by a comment without a blank. -/
  keyword : ∀ line ∈ lines, trim line ≠ "import".toList ∧ ¬ "import//".toList <+: trim line
  /-- No comment stands between the braces. -/
  braces : ∀ token ∈ betweenBraces tokens, token.isComment = false
  /-- No comment in front of the path quotes another one. -/
  remarks : ∀ text ∈ (beforePath tokens).filterMap Token.comment?, quotesSource [] text = false
  /-- The path holds single spaces only. -/
  path : ∀ path ∈ tokens.filterMap Token.path?, SingleSpaced path

instance (lines : List (List Char)) (tokens : List Token) : Decidable (IsPlain lines tokens) :=
  decidable_of_iff
    ((∀ line ∈ lines, trim line ≠ "import".toList ∧ ¬ "import//".toList <+: trim line) ∧
      (∀ token ∈ betweenBraces tokens, token.isComment = false) ∧
      (∀ text ∈ (beforePath tokens).filterMap Token.comment?, quotesSource [] text = false) ∧
      ∀ path ∈ tokens.filterMap Token.path?, SingleSpaced path)
    ⟨fun ⟨keyword, braces, remarks, path⟩ => ⟨keyword, braces, remarks, path⟩,
      fun ⟨keyword, braces, remarks, path⟩ => ⟨keyword, braces, remarks, path⟩⟩

section Kept

variable {line : List Char}

theorem opens_of_keyword (scans : Scans line tokens)
    (code : codeOf tokens = .word "import".toList :: others)
    (mark : ∀ m, others.head? = some (.mark m) → m = '\x7b')
    (alone : trim line ≠ "import".toList) (apart : ¬ "import//".toList <+: trim line) :
    opens (trim line) = true := by
  rcases scans.trim with ⟨own, trimmed, silent⟩
  have own_code : codeOf own = .word "import".toList :: others := by
    rw [← code, ← codeOf_silent own, silent, codeOf_silent]
  rcases trimmed.code_head own_code with ⟨later, rfl, later_code⟩
  rcases trimmed.front_word (tight_trimWhere isBlank line).1 with ⟨rest, shape, ends, scans⟩
  rw [shape] at alone apart ⊢
  unfold opens
  rw [after?_append]
  cases rest with
  | nil => exact absurd (List.append_nil _) alone
  | cons c more =>
      have other := ends c rfl
      dsimp only
      by_cases blank : isBlank c = true
      · simp [blank]
      by_cases quote : isQuote c = true
      · simp [quote]
      by_cases marks : isMark c = true
      · rcases scans.behind_mark marks with ⟨behind, rfl, -⟩
        obtain rfl : c = '\x7b' := mark c (by rw [← later_code]; rfl)
        simp
      · -- what is left is a slash, and it begins a comment
        obtain rfl : c = '/' := by simp_all [isWordChar]
        rcases scans.behind_slash with ⟨text, rfl, -⟩
        exact absurd ⟨text, by simp⟩ apart

theorem head?_behind_keyword (m : Char)
    (head : (declaration.opening ++ .mark '\x7b' :: others).head? = some (.mark m)) :
    m = '\x7b' := by
  rcases opening_cases declaration with none | ⟨word, rest, shape, -⟩
  · simpa [none, eq_comm] using head
  · simp [shape] at head

theorem exists_opened (scansAll : ScansAll lines tokens)
    (code : codeOf tokens = .word "import".toList :: others)
    (mark : ∀ m, others.head? = some (.mark m) → m = '\x7b')
    (keyword : ∀ line ∈ lines,
      trim line ≠ "import".toList ∧ ¬ "import//".toList <+: trim line) :
    ∃ lead line rest early own, lines = lead ++ line :: rest ∧ tokens = early ++ own ∧
      codeOf early = [] ∧ ScansAll (line :: rest) own ∧ opens (trim line) = true ∧
      (splitLines [] lines).imports = (splitLines [] (line :: rest)).imports := by
  induction scansAll with
  | nil => cases code
  | @cons line rest own later scans scansLater ih =>
      have own_keyword := keyword line List.mem_cons_self
      have later_keyword := fun other member => keyword other (List.mem_cons_of_mem line member)
      rw [codeOf_append] at code
      cases own_code : codeOf own with
      | nil =>
          rw [own_code, List.nil_append] at code
          have wordless : ∀ word, .word word ∉ own := by
            intro word member
            have inside : .word word ∈ codeOf own := List.mem_filter.mpr ⟨member, rfl⟩
            rw [own_code] at inside
            cases inside
          rcases ih code later_keyword
            with ⟨lead, opening, more, early, tail, rfl, rfl, silent, scans', opened, imports⟩
          refine ⟨line :: lead, opening, more, own ++ early, tail, rfl,
            (List.append_assoc _ _ _).symm, by simp [own_code, silent], scans', opened, ?_⟩
          rw [imports_splitLines_shut (opens_of_wordless scans wordless), imports]
      | cons token more =>
          rw [own_code, List.cons_append] at code
          obtain ⟨rfl, rfl⟩ : token = .word "import".toList ∧ more ++ codeOf later = others :=
            List.cons.inj code
          have mark' : ∀ m, more.head? = some (.mark m) → m = '\x7b' :=
            fun m head => mark m (by rw [List.head?_append, head]; rfl)
          have opened := opens_of_keyword scans own_code mark' own_keyword.1 own_keyword.2
          exact ⟨[], line, rest, [], own ++ later, rfl, rfl, rfl, .cons scans scansLater, opened,
            rfl⟩

theorem mem_betweenBraces {token : Token} {early own later : List Token}
    (silent : codeOf early = []) (member : token ∈ betweenBraces own) :
    token ∈ betweenBraces (early ++ (own ++ later)) := by
  have skipped : ∀ token ∈ early, (token != .mark '\x7b') = true := by
    intro token member
    rw [bne_iff_ne]
    rintro rfl
    have inside : .mark '\x7b' ∈ codeOf early := List.mem_filter.mpr ⟨member, rfl⟩
    rw [silent] at inside
    cases inside
  unfold betweenBraces at member ⊢
  rw [List.dropWhile_append_of_pos skipped, List.dropWhile_append]
  cases found : own.dropWhile (· != .mark '\x7b') with
  | nil => simp [found] at member
  | cons first rest =>
      rw [found] at member
      rw [if_neg (by simp), List.takeWhile_append]
      split
      · exact List.mem_append_left _ ((List.takeWhile_prefix _).subset member)
      · exact member

/-- Lines without a path are not complete if their comments quote none. -/
theorem guarded_of_pathless (scansAll : ScansAll lines tokens)
    (pathless : ∀ path, .path path ∉ tokens)
    (silent : ∀ text, .comment text ∈ tokens → quotesSource [] text = false) :
    ∀ line ∈ lines, Guarded line := by
  induction scansAll with
  | nil => simp
  | cons scans _ ih =>
      have own := scans.guarded (fun path member => pathless path (List.mem_append_left _ member))
        fun text member => silent text (List.mem_append_left _ member)
      exact List.forall_mem_cons.mpr ⟨own,
        ih (fun path member => pathless path (List.mem_append_right _ member))
          fun text member => silent text (List.mem_append_right _ member)⟩

/-- Behind its path only the end of a statement is left. -/
theorem tokens_cases {own later : List Token}
    (code : codeOf (own ++ later) = declaration.tokens comma semicolon) {path : List Char}
    (known : .path path ∈ own) :
    (∃ ended, codeOf own = declaration.tokens comma ended) ∧ ∀ word, .word word ∉ later := by
  let front := Token.word "import".toList :: (declaration.opening ++ .mark '\x7b' ::
    (listed comma declaration.names ++ .mark '\x7d' :: [.word "from".toList]))
  have shape (ended : Bool) :
      declaration.tokens comma ended = front ++ .path declaration.path :: closing ended := by
    simp [Declaration.tokens, Declaration.source, front]
  have pathless : ∀ path, .path path ∉ front := by
    intro path member
    have absent := @path_not_mem_front declaration comma path
    simp [front, absent.1, absent.2] at member
  have inside : .path path ∈ codeOf own := List.mem_filter.mpr ⟨known, rfl⟩
  have behind (word : List Char) (later_word : .word word ∈ later) : .word word ∈ codeOf later :=
    List.mem_filter.mpr ⟨later_word, rfl⟩
  rw [codeOf_append, shape] at code
  rcases List.append_eq_append_iff.mp code with ⟨more, rest, tail⟩ | ⟨more, rest, tail⟩
  · exact absurd (rest ▸ List.mem_append_left _ inside) (pathless path)
  · cases more with
    | nil =>
        rw [List.append_nil] at rest
        exact absurd (rest ▸ inside) (pathless path)
    | cons token others =>
        obtain ⟨rfl, ends⟩ : .path declaration.path = token ∧
            closing semicolon = others ++ codeOf later := List.cons.inj tail
        have cases : others = closing false ∧ codeOf later = closing semicolon ∨
            others = closing semicolon ∧ codeOf later = [] := by
          cases others with
          | nil => exact .inl ⟨rfl, ends.symm⟩
          | cons first more => cases semicolon <;> simp_all [closing]
        rcases cases with ⟨rfl, last⟩ | ⟨rfl, last⟩
        · refine ⟨⟨false, by rw [rest, shape]⟩, fun word member => ?_⟩
          have held := behind word member
          rw [last] at held
          cases semicolon <;> simp [closing] at held
        · refine ⟨⟨semicolon, by rw [rest, shape]⟩, fun word member => ?_⟩
          have held := behind word member
          rw [last] at held
          cases held

theorem exists_path {kept left : List (List Char)} {early own later : List Token}
    (kept_scans : ScansAll kept own) (left_scans : ScansAll left later) (silent : codeOf early = [])
    (code : codeOf (own ++ later) = declaration.tokens comma semicolon)
    (remarks : ∀ text ∈ (beforePath (early ++ (own ++ later))).filterMap Token.comment?,
      quotesSource [] text = false)
    (complete : isComplete ([' '].intercalate (kept.map trim)) = true ∨ left = []) :
    ∃ path, .path path ∈ own := by
  by_contra none_there
  rw [not_exists] at none_there
  rcases complete with complete | rfl
  · -- without its path the statement is not complete, whatever its comments are
    have pathless {tokens : List Token} (absent : ∀ path, .path path ∉ tokens) :
        ∀ token ∈ tokens, (!token.isPath) = true := by
      intro token member
      cases token with
      | path text => exact absurd member (absent text)
      | _ => rfl
    have early_pathless : ∀ path, .path path ∉ early := by
      intro path member
      have inside : .path path ∈ codeOf early := List.mem_filter.mpr ⟨member, rfl⟩
      rw [silent] at inside
      cases inside
    have quiet : ∀ text, .comment text ∈ own → quotesSource [] text = false := by
      intro text member
      refine remarks text (List.mem_filterMap.mpr ⟨.comment text, ?_, rfl⟩)
      rw [beforePath, List.takeWhile_append_of_pos (pathless early_pathless),
        List.takeWhile_append_of_pos (pathless none_there)]
      exact List.mem_append_right _ (List.mem_append_left _ member)
    have guarded : ∀ line ∈ kept.map trim, Guarded line := by
      intro line member
      rcases List.mem_map.mp member with ⟨original, inside, rfl⟩
      exact (guarded_of_pathless kept_scans none_there quiet original inside).trim
    rw [isComplete_of_guarded (Guarded.join guarded)] at complete
    cases complete
  · cases left_scans
    rw [List.append_nil] at code
    have inside : .path declaration.path ∈ codeOf own := by
      rw [code]
      simp [Declaration.tokens, Declaration.source]
    exact none_there _ (List.mem_filter.mp inside).1

/-- Of plain lines with one statement that imports names, those are taken that hold all of it but
the end, and nothing else is taken for a statement. -/
theorem exists_kept (scansAll : ScansAll lines tokens) (plain : IsPlain lines tokens)
    (code : codeOf tokens = declaration.tokens comma semicolon) :
    ∃ kept entry own ended, kept ⊆ lines ∧ ScansAll kept own ∧
      codeOf own = declaration.tokens comma ended ∧
      (∀ token ∈ betweenBraces own, token.isComment = false) ∧
      Keeps entry (kept.map trim) ∧ (splitLines [] lines).imports = [entry] := by
  rcases exists_opened scansAll code head?_behind_keyword plain.keyword
    with ⟨lead, line, rest, early, opened, rfl, rfl, silent, opened_scans, opens, imports⟩
  have first : ([] : List (List Char)) ≠ [] ∨ ImportText.opens (trim line) = true := .inr opens
  rcases splitLines_open first rest with ⟨kept, left, entry, split, keeps, complete, taken⟩
  rw [split] at opened_scans
  rcases opened_scans.of_append with ⟨own, later, rfl, kept_scans, left_scans⟩
  rw [List.reverse_nil, List.nil_append] at keeps complete
  have own_code : codeOf (own ++ later) = declaration.tokens comma semicolon := by
    rw [← code, codeOf_append early, silent, List.nil_append]
  rcases exists_path kept_scans left_scans silent own_code plain.remarks complete
    with ⟨path, known⟩
  rcases tokens_cases own_code known with ⟨⟨ended, kept_code⟩, wordless⟩
  refine ⟨kept, entry, own, ended, ?_, kept_scans, kept_code, ?_, keeps, ?_⟩
  · intro line member
    rw [split]
    simp [member]
  · exact fun token member => plain.braces token (mem_betweenBraces silent member)
  · rw [imports, taken, imports_of_wordless left_scans wordless]

end Kept

end TypedClient.Layout

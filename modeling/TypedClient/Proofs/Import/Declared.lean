import TypedClient.Proofs.Import.RoundTrip
import TypedClient.Proofs.Import.Layout

namespace TypedClient.Layout

open Text ImportText

/-- The tokens of lines, one line after the other. -/
def scanLines : List (List Char) → Option (List Token)
  | [] => some []
  | line :: rest => (scan line).bind fun own => (scanLines rest).map (own ++ ·)

theorem scanLines_eq_some_iff {lines : List (List Char)} {tokens : List Token} :
    scanLines lines = some tokens ↔ ScansAll lines tokens := by
  induction lines generalizing tokens with
  | nil =>
      constructor
      · intro found
        cases found
        exact .nil
      · intro scans
        cases scans
        rfl
  | cons line rest ih =>
      rw [scanLines, Option.bind_eq_some_iff]
      constructor
      · rintro ⟨own, found, later⟩
        rcases Option.map_eq_some_iff.mp later with ⟨others, behind, rfl⟩
        exact .cons (scan_eq_some_iff.mp found) (ih.mp behind)
      · intro scans
        cases scans with
        | cons own later =>
            exact ⟨_, scan_eq_some_iff.mpr own, Option.map_eq_some_iff.mpr ⟨_, ih.mpr later, rfl⟩⟩

/-- What a statement imports: each name with the words that it is listed by. -/
structure Declaration where
  onlyType : Bool
  default : Option (List Char)
  names : List (List (List Char))
  path : List Char
  given : ∀ name ∈ names, name ≠ []
  /-- Types are imported by default or by name, not both. -/
  apart : onlyType = true → default = none

/-- The tokens of names between commas, with a comma behind the last one or not. -/
def listed (comma : Bool) : List (List (List Char)) → List Token
  | [] => []
  | [last] => last.map .word ++ if comma then [.mark ','] else []
  | first :: second :: rest => first.map .word ++ .mark ',' :: listed comma (second :: rest)

def closing (semicolon : Bool) : List Token := if semicolon then [.mark ';'] else []

namespace Declaration

variable (declaration : Declaration)

def opening : List Token :=
  (if declaration.onlyType then [.word "type".toList] else []) ++
    declaration.default.toList.flatMap fun name => [.word name, .mark ',']

def source (semicolon : Bool) : List Token :=
  .word "from".toList :: .path declaration.path :: closing semicolon

/-- The tokens of a statement that imports names. -/
def tokens (comma semicolon : Bool) : List Token :=
  .word "import".toList :: (declaration.opening ++ .mark '\x7b' ::
    (listed comma declaration.names ++ .mark '\x7d' :: declaration.source semicolon))

end Declaration

section Listing

variable {text front back rest : List Char} {tokens others : List Token} {m : Char}

def Listing (m : Char) (tokens : List Token) : Prop :=
  ∀ token ∈ tokens, (∃ word, token = .word word) ∨ ∃ c, token = .mark c ∧ c ≠ m

theorem Listing.code (listing : Listing m tokens) : ∀ token ∈ tokens, token.isComment = false := by
  intro token member
  rcases listing token member with ⟨word, rfl⟩ | ⟨c, rfl, -⟩ <;> rfl

theorem Listing.tail {token : Token} (listing : Listing m (token :: tokens)) : Listing m tokens :=
  fun other member => listing other (List.mem_cons_of_mem token member)

theorem listing_words (words : List (List Char)) : Listing m (words.map .word) := by
  intro token member
  rcases List.mem_map.mp member with ⟨word, -, rfl⟩
  exact .inl ⟨word, rfl⟩

theorem listing_listed (other : ',' ≠ m) (comma : Bool) (names : List (List (List Char))) :
    Listing m (listed comma names) := by
  induction names with
  | nil => simp [listed, Listing]
  | cons first rest ih =>
      intro token member
      cases rest with
      | nil =>
          rcases List.mem_append.mp member with word | last
          · exact listing_words first token word
          · cases comma with
            | false => cases last
            | true => exact .inr ⟨',', List.mem_singleton.mp last, other⟩
      | cons second more =>
          rcases List.mem_append.mp member with word | behind
          · exact listing_words first token word
          · rcases List.mem_cons.mp behind with rfl | later
            · exact .inr ⟨',', rfl, other⟩
            · exact ih token later

/-- The first mark of a kind cuts a text where it cuts the tokens. -/
theorem Scans.split_mark (scans : Scans text tokens) (mark : isMark m = true)
    {before after : List Token} (listing : Listing m before)
    (cuts : cut tokens = before ++ .mark m :: after) :
    ∃ front back own, text = front ++ m :: back ∧ m ∉ front ∧ Scans front before ∧
      Scans back own ∧ cut own = after := by
  induction scans generalizing before with
  | nil => cases before <;> cases cuts
  | @blank c rest _ blank _ ih =>
      rcases ih listing cuts with ⟨front, back, own, rfl, absent, scans, behind⟩
      have other : m ≠ c := by
        rintro rfl
        rw [isBlank_of_isMark mark] at blank
        cases blank
      exact ⟨c :: front, back, own, rfl, by simp [other, absent], .blank blank scans, behind⟩
  | @mark c rest tokens own scans ih =>
      cases before with
      | nil =>
          rw [cut_mark, List.nil_append, List.cons.injEq, Token.mark.injEq] at cuts
          obtain ⟨rfl, later⟩ := cuts
          exact ⟨[], rest, tokens, rfl, by simp, .nil, scans, later⟩
      | cons token more =>
          rw [cut_mark, List.cons_append, List.cons.injEq] at cuts
          rcases ih listing.tail cuts.2 with ⟨front, back, own', rfl, absent, scans, behind⟩
          have other : m ≠ c := by
            rcases listing token List.mem_cons_self with ⟨word, shape⟩ | ⟨d, shape, differs⟩
            · rw [shape] at cuts
              cases cuts.1
            · rw [shape, Token.mark.injEq] at cuts
              rw [cuts.1]
              exact differs.symm
          rw [← cuts.1]
          exact ⟨c :: front, back, own', rfl, by simp [other, absent], .mark own scans, behind⟩
  | @word word rest tokens given solid ends scans ih =>
      cases before with
      | nil => cases cuts
      | cons token more =>
          rw [cut_word, List.cons_append, List.cons.injEq] at cuts
          rcases ih listing.tail cuts.2 with ⟨front, back, own, rfl, absent, scans, behind⟩
          have outside : m ∉ word := by
            intro member
            have inside := solid m member
            rw [isWordChar_of_isMark mark] at inside
            cases inside
          have ends' : ∀ c ∈ front.head?, isWordChar c = false := by
            cases front with
            | nil => simp
            | cons c others => exact ends
          rw [← cuts.1]
          exact ⟨word ++ front, back, own, by simp, by simp [outside, absent],
            .word given solid ends' scans, behind⟩
  | path opens content scans ih =>
      cases before with
      | nil => cases cuts
      | cons token more =>
          rcases listing token List.mem_cons_self with ⟨word, rfl⟩ | ⟨d, rfl, -⟩ <;> cases cuts
  | comment own =>
      cases before with
      | nil => cases cuts
      | cons token more =>
          rcases listing token List.mem_cons_self with ⟨word, rfl⟩ | ⟨d, rfl, -⟩ <;> cases cuts

theorem Scans.words_eq (scans : Scans text tokens) {words : List (List Char)}
    (only : tokens = words.map .word) : Text.words text = words := by
  induction scans generalizing words with
  | nil =>
      rw [eq_comm, List.map_eq_nil_iff] at only
      rw [only]
      rfl
  | blank blank _ ih => rw [words_blank blank, ih only]
  | mark own scans _ => cases words <;> cases only
  | @word word rest tokens given solid ends scans ih =>
      cases words with
      | nil => cases only
      | cons first more =>
          rw [List.map_cons, List.cons.injEq, Token.word.injEq] at only
          obtain ⟨rfl, later⟩ := only
          have alone : IsWord word := ⟨given, fun c member => (isWordChar_spec (solid c member)).1⟩
          cases scans with
          | nil =>
              rw [List.append_nil, words_of_isWord alone, ← ih later]
              rfl
          | blank blank _ =>
              rw [words_append_blank blank, words_of_isWord alone, ← ih later, words_blank blank]
              rfl
          | mark own _ => cases more <;> cases later
          | @word other behind _ given' solid' ends' _ =>
              rcases List.exists_cons_of_ne_nil given' with ⟨c, others, rfl⟩
              have apart := ends c rfl
              rw [solid' c List.mem_cons_self] at apart
              cases apart
          | path _ _ _ => cases more <;> cases later
          | comment _ => cases more <;> cases later
  | path opens content scans _ => cases words <;> cases only
  | comment own => cases words <;> cases only

/-- A text whose blanks are single spaces is trimmed to its words one blank apart. -/
theorem SingleSpaced.trim (single : SingleSpaced text) : trim text = squeeze text := by
  have inside : Text.trim text <:+: text := infix_trimWhere isBlank text
  have tight : Tight isBlank (Text.trim text) := tight_trimWhere isBlank text
  have same : Text.words (Text.trim text) = Text.words text := filter_splitWhere_trimWhere text
  have kept := single.of_infix inside
  rw [squeeze, ← same, ← squeeze]
  generalize Text.trim text = core at tight kept
  cases core with
  | nil => rfl
  | cons c more =>
      have solid : isBlank c = false := tight.1 c rfl
      rcases List.eq_nil_or_concat more with rfl | ⟨middle, last, rfl⟩
      · rw [squeeze_solid solid]
        rfl
      · rw [List.concat_eq_append] at tight kept ⊢
        have solid' : isBlank last = false := by
          apply tight.2
          rw [← List.cons_append]
          exact List.getLast?_concat
        rw [squeeze_solid solid, behind_single (kept.tail.of_infix ⟨[], [last], rfl⟩) solid']
        rfl

theorem cut_of_code (code : ∀ token ∈ tokens, token.isComment = false) : cut tokens = tokens := by
  have whole := cut_append code []
  rwa [List.append_nil, cut_nil, List.append_nil] at whole

theorem eq_of_cut (same : cut tokens = others) (code : ∀ token ∈ others, token.isComment = false) :
    tokens = others := by
  subst same
  induction tokens with
  | nil => rfl
  | cons token rest ih =>
      cases token with
      | comment text => exact absurd (code _ List.mem_cons_self) (by simp [Token.isComment])
      | _ => exact congrArg _ (ih fun other member => code other (List.mem_cons_of_mem _ member))

theorem listed_cons (comma : Bool) (first : List (List Char)) {names : List (List (List Char))}
    (more : names ≠ []) :
    listed comma (first :: names) = first.map .word ++ .mark ',' :: listed comma names := by
  rcases List.exists_cons_of_ne_nil more with ⟨second, others, rfl⟩
  rfl

def nameText (name : List (List Char)) : String := String.ofList ([' '].intercalate name)

theorem splitNames_append (front back : List Char) :
    splitNames (front ++ ',' :: back) = splitNames front ++ splitNames back := by
  unfold splitNames
  rw [splitWhere_append (by decide), List.map_append, List.filterMap_append]

theorem splitNames_of_apart (apart : ',' ∉ text) :
    splitNames text = if trim text = [] then [] else [String.ofList (trim text)] := by
  have none_there : ∀ c ∈ text, (c == ',') = false := by
    intro c member
    rw [beq_eq_false_iff_ne]
    rintro rfl
    exact apart member
  unfold splitNames
  rw [splitWhere_of_none none_there, List.map_singleton]
  by_cases empty : trim text = []
  · simp [empty]
  · simp [empty]

theorem Scans.not_mem_of_words (scans : Scans text tokens)
    (only : ∀ token ∈ tokens, ∃ word, token = .word word) (mark : isMark m = true) : m ∉ text := by
  induction scans with
  | nil => simp
  | blank blank _ ih =>
      have other : m ≠ _ := fun same => by
        rw [same, ← Bool.not_eq_false, isMark_of_isBlank blank] at mark
        exact mark rfl
      simp [other, ih only]
  | mark own _ _ =>
      rcases only _ List.mem_cons_self with ⟨word, same⟩
      cases same
  | word given solid ends _ ih =>
      have outside : m ∉ _ := fun member => by
        have inside := solid m member
        rw [isWordChar_of_isMark mark] at inside
        cases inside
      rw [List.mem_append, not_or]
      exact ⟨outside, ih fun token member => only token (List.mem_cons_of_mem _ member)⟩
  | path _ _ _ _ =>
      rcases only _ List.mem_cons_self with ⟨word, same⟩
      cases same
  | comment own =>
      rcases only _ List.mem_cons_self with ⟨word, same⟩
      cases same

theorem splitNames_name {name : List (List Char)} (scans : Scans text (name.map .word))
    (single : SingleSpaced text) (given : name ≠ []) : splitNames text = [nameText name] := by
  have words := scans.words_eq rfl
  have apart : ',' ∉ text := by
    refine scans.not_mem_of_words (fun token member => ?_) (by decide)
    rcases List.mem_map.mp member with ⟨word, -, same⟩
    exact ⟨word, same.symm⟩
  have trimmed : trim text = [' '].intercalate name := by rw [single.trim, squeeze, words]
  have solid : [' '].intercalate name ≠ [] := by
    intro nothing
    have none_left := scans.words_eq rfl
    rcases List.exists_cons_of_ne_nil given with ⟨first, more, rfl⟩
    have own : IsWord first := by
      apply isWord_of_mem_words
      rw [words]
      exact List.mem_cons_self
    cases more <;> simp [List.intercalate_cons_cons, own.1] at nothing
  rw [splitNames_of_apart apart, trimmed, if_neg solid, nameText]

theorem splitNames_blank (scans : Scans text []) : splitNames text = [] := by
  have blank : ∀ c ∈ text, isBlank c = true := by
    generalize none_there : ([] : List Token) = tokens at scans
    induction scans with
    | nil => simp
    | blank own _ ih => exact List.forall_mem_cons.mpr ⟨own, ih none_there⟩
    | mark _ _ _ => cases none_there
    | word _ _ _ _ _ => cases none_there
    | path _ _ _ _ => cases none_there
    | comment _ => cases none_there
  have trimmed : trim text = [] := by
    rw [trim, trimWhere, List.dropWhile_eq_nil_iff.mpr blank]
    rfl
  have apart : ',' ∉ text := fun member => absurd (blank ',' member) (by decide)
  rw [splitNames_of_apart apart, if_pos trimmed]

theorem splitNames_listed {comma : Bool} {names : List (List (List Char))}
    (given : ∀ name ∈ names, name ≠ []) (scans : Scans text (listed comma names))
    (single : SingleSpaced text) : splitNames text = names.map nameText := by
  have own_mark : isMark ',' = true := by decide
  induction names generalizing text with
  | nil => exact splitNames_blank scans
  | cons first rest ih =>
      have own := given first List.mem_cons_self
      have others := fun name member => given name (List.mem_cons_of_mem first member)
      by_cases more : rest = []
      · subst more
        cases comma with
        | false =>
            have alone : Scans text (first.map .word) := by simpa [listed] using scans
            rw [splitNames_name alone single own, List.map_singleton]
        | true =>
            have cuts : cut (listed true [first]) = first.map .word ++ .mark ',' :: [] :=
              cut_append (listing_words (m := ';') first).code [.mark ',']
            rcases scans.split_mark own_mark (listing_words first) cuts
              with ⟨front, back, last, rfl, -, own_scans, behind, none_left⟩
            have nothing : last = [] := eq_of_cut none_left (by simp)
            rw [nothing] at behind
            rw [splitNames_append, splitNames_name own_scans
              (single.of_infix (List.prefix_append _ _).isInfix) own, splitNames_blank behind]
            rfl
      · have code := (listing_listed (by decide : ',' ≠ ';') comma rest).code
        have cuts : cut (listed comma (first :: rest)) =
            first.map .word ++ .mark ',' :: listed comma rest := by
          rw [listed_cons comma first more, cut_append (listing_words (m := ';') first).code,
            cut_mark, cut_of_code code]
        rcases scans.split_mark own_mark (listing_words first) cuts
          with ⟨front, back, last, rfl, -, own_scans, behind, later⟩
        rw [eq_of_cut later code] at behind
        have single' : SingleSpaced back :=
          single.of_infix ((List.suffix_cons ',' back).trans (List.suffix_append _ _)).isInfix
        rw [splitNames_append, splitNames_name own_scans
          (single.of_infix (List.prefix_append _ _).isInfix) own, ih others behind single']
        rfl

end Listing

end TypedClient.Layout

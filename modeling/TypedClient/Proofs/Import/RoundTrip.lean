import TypedClient.Proofs.Import.Merging
import TypedClient.Proofs.Text.Words

namespace TypedClient

namespace ImportText

variable {text rest : List Char} {path : String}

theorem after?_eq_none {start : String} (differs : start.toList.isPrefixOf text = false) :
    after? start text = none := by
  unfold after?
  rw [if_neg (by simp [differs])]

def sourceClause (path : String) : List Char := "from '".toList ++ path.toList ++ "';".toList

theorem source?_sourceClause (quotable : IsQuotable path.toList) :
    source? (sourceClause path) = some path := by
  have shape : sourceClause path =
      "from".toList ++ (' ' :: '\'' :: (path.toList ++ '\'' :: [';'])) := by
    unfold sourceClause
    simp
  have found : quotedPath? ('\'' :: (path.toList ++ '\'' :: [';'])) = some (path.toList, [';']) :=
    quotedPath?_append quotable rfl rfl [';']
  have ends : isEnd [';'] = true := by decide
  unfold source?
  rw [shape, after?_append, Option.bind_eq_bind, Option.bind_some, quotedPath?_space, found,
    Option.bind_eq_bind, Option.bind_some]
  dsimp only
  rw [if_pos ends, String.ofList_toList]

theorem isBlank_of_isFieldChar {c : Char} (inside : Naming.isFieldChar c = true) :
    Text.isBlank c = false := by
  rw [Bool.eq_false_iff]
  intro blank
  have codes : c.toNat ∈ List.range' 9 5 ++ List.range' 28 5 ++ List.range' 0x2000 11 ++
      [0x85, 0xA0, 0x1680, 0x2028, 0x2029, 0x202F, 0x205F, 0x3000] := by
    simp only [Text.isBlank, Bool.or_eq_true, Bool.and_eq_true, decide_eq_true_eq,
      beq_iff_eq] at blank
    simp only [List.mem_append, List.mem_range'_1, List.mem_cons, List.not_mem_nil, or_false]
    omega
  have checked : (List.range' 9 5 ++ List.range' 28 5 ++ List.range' 0x2000 11 ++
      [0x85, 0xA0, 0x1680, 0x2028, 0x2029, 0x202F, 0x205F, 0x3000]).all
        (fun code => !Naming.isFieldChar (Char.ofNat code)) = true := by
    decide +kernel
  have outside := List.all_eq_true.mp checked c.toNat codes
  rw [Char.ofNat_toNat, inside] at outside
  cases outside

theorem isQuote_of_isFieldChar {c : Char} (inside : Naming.isFieldChar c = true) :
    isQuote c = false := by
  rw [Bool.eq_false_iff]
  intro quote
  rcases Bool.or_eq_true _ _ ▸ quote with single | double
  · rw [beq_iff_eq.mp single] at inside
    exact absurd inside (by decide)
  · rw [beq_iff_eq.mp double] at inside
    exact absurd inside (by decide)

def IsIdentifier (name : List Char) : Prop :=
  name ≠ [] ∧ ∀ c ∈ name, Naming.isFieldChar c = true

theorem isIdentifier_type : IsIdentifier "type".toList := by
  have checked : "type".toList.all Naming.isFieldChar = true := by decide
  exact ⟨by decide, fun c member => List.all_eq_true.mp checked c member⟩

theorem name?_append {name : List Char} {c : Char} (identifier : IsIdentifier name)
    (stops : Naming.isFieldChar c = false) (rest : List Char) :
    name? (name ++ c :: rest) = some (name, c :: rest) := by
  have taken : (name ++ c :: rest).takeWhile Naming.isFieldChar = name :=
    Text.takeWhile_of_stop identifier.2 (by simpa using stops)
  unfold name?
  dsimp only
  rw [taken, if_neg (by simpa using identifier.1), List.drop_left]

/-- A path that may stand between quotes, without blanks. -/
structure IsPath (path : List Char) : Prop where
  quotable : IsQuotable path
  solid : ∀ c ∈ path, Text.isBlank c = false

instance (path : List Char) : Decidable (IsPath path) :=
  decidable_of_iff (IsQuotable path ∧ path.all (!Text.isBlank ·) = true)
    ⟨fun ⟨quotable, solid⟩ => ⟨quotable, by simpa using solid⟩,
      fun target => ⟨target.quotable, by simpa using target.solid⟩⟩

structure IsListed (name : List Char) : Prop where
  given : name ≠ []
  spaced : Text.Spaced name
  apart : ∀ c ∈ name, c ≠ ',' ∧ c ≠ '\x7d'

instance (name : List Char) : Decidable (IsIdentifier name) :=
  decidable_of_iff (name ≠ [] ∧ name.all Naming.isFieldChar = true)
    (and_congr_right fun _ => List.all_eq_true)

instance (name : List Char) : Decidable (IsListed name) :=
  decidable_of_iff
    (name ≠ [] ∧ Text.Spaced name ∧ name.all (fun c => c != ',' && c != '\x7d') = true)
    ⟨fun ⟨given, spaced, apart⟩ => ⟨given, spaced, by simpa using apart⟩,
      fun listed => ⟨listed.given, listed.spaced, by simpa using listed.apart⟩⟩

theorem trim_splitWhere_join {names : List String} (given : names ≠ [])
    (listed : ∀ name ∈ names, IsListed name.toList) :
    (Text.splitWhere (· == ',')
      (' ' :: (", ".toList.intercalate (names.map String.toList) ++ [' ']))).map Text.trim =
      names.map String.toList := by
  induction names with
  | nil => exact absurd rfl given
  | cons name rest ih =>
      have own := listed name (by simp)
      have apart : ∀ c ∈ name.toList, (c == ',') = false := by
        intro c member
        simpa using (own.apart c member).1
      by_cases more : rest = []
      · have whole : ∀ c ∈ ' ' :: (name.toList ++ [' ']), (c == ',') = false := by
          intro c member
          simp only [List.mem_cons, List.mem_append, List.not_mem_nil, or_false] at member
          rcases member with rfl | inside | rfl
          · rfl
          · exact apart c inside
          · rfl
        rw [more, List.map_singleton, List.intercalate_singleton, Text.splitWhere_of_none whole,
          List.map_singleton, Text.trim_padded own.spaced.tight (by simp; decide)]
      · have later := ih more fun other member => listed other (by simp [member])
        have front : ∀ c ∈ ' ' :: name.toList, (c == ',') = false := by
          simpa using apart
        have padded := Text.trim_padded own.spaced.tight (List.forall_mem_nil _)
        rw [List.append_nil] at padded
        have shape : ' ' :: (", ".toList.intercalate ((name :: rest).map String.toList) ++ [' ']) =
            (' ' :: name.toList) ++
              ',' :: (' ' :: (", ".toList.intercalate (rest.map String.toList) ++ [' '])) := by
          rw [List.map_cons, List.intercalate_cons_of_ne_nil (by simpa using more)]
          simp
        rw [shape, Text.splitWhere_append rfl, List.map_append, later,
          Text.splitWhere_of_none front, List.map_singleton, padded]
        rfl

theorem splitNames_join {names : List String} (given : names ≠ [])
    (listed : ∀ name ∈ names, IsListed name.toList) :
    splitNames (' ' :: (", ".toList.intercalate (names.map String.toList) ++ [' '])) = names := by
  unfold splitNames
  rw [trim_splitWhere_join given listed, List.filterMap_map]
  clear given
  induction names with
  | nil => rfl
  | cons name rest ih =>
      have own := (listed name (by simp)).given
      have later := ih fun other member => listed other (by simp [member])
      rw [List.filterMap_cons_some (b := name), later]
      simp [own]

theorem braced?_named {names : List String} (given : names ≠ [])
    (listed : ∀ name ∈ names, IsListed name.toList) (quotable : IsQuotable path.toList) :
    braced? (Import.named names ++ ' ' :: sourceClause path) = some (names, path) := by
  have shape : Import.named names ++ ' ' :: sourceClause path =
      "\x7b".toList ++ ((' ' :: (", ".toList.intercalate (names.map String.toList) ++ [' '])) ++
        '\x7d' :: (' ' :: sourceClause path)) := by
    unfold Import.named
    simp
  have held : ∀ c ∈ ' ' :: (", ".toList.intercalate (names.map String.toList) ++ [' ']),
      (c != '\x7d') = true := by
    intro c member
    rw [bne_iff_ne]
    rintro rfl
    have inside : '\x7d' ∈ ", ".toList.intercalate (names.map String.toList) := by
      simpa using member
    have apart : ", ".toList.Disjoint ['\x7d'] := List.disjoint_singleton.mpr (by decide)
    rcases Text.exists_of_infix_join (by decide) apart (by decide)
      ((List.singleton_infix_iff _ _).mpr inside) with ⟨text, listed_text, within⟩
    rcases List.mem_map.mp listed_text with ⟨name, own, rfl⟩
    exact ((listed name own).apart _ ((List.singleton_infix_iff _ _).mp within)).2 rfl
  have taken : ((' ' :: (", ".toList.intercalate (names.map String.toList) ++ [' '])) ++
      '\x7d' :: (' ' :: sourceClause path)).takeWhile (· != '\x7d') =
        ' ' :: (", ".toList.intercalate (names.map String.toList) ++ [' ']) :=
    Text.takeWhile_of_stop held (by simp)
  have closing : after? "\x7d" ('\x7d' :: (' ' :: sourceClause path)) =
      some (' ' :: sourceClause path) := after?_append "\x7d" _
  have blank : dropBlanks (' ' :: sourceClause path) = sourceClause path := rfl
  unfold braced?
  rw [shape, after?_append, Option.bind_eq_bind, Option.bind_some]
  dsimp only
  rw [taken, List.drop_left, closing, Option.bind_eq_bind, Option.bind_some,
    splitNames_join given listed, blank, source?_sourceClause quotable]
  rfl

section Forms

variable {name : List Char} {names : List String} {form : List Char → Option Import}
  {statement : Import}

theorem isFieldChar_head (identifier : IsIdentifier name) :
    ∃ first more, name = first :: more ∧ Naming.isFieldChar first = true := by
  rcases List.exists_cons_of_ne_nil identifier.1 with ⟨first, more, rfl⟩
  exact ⟨first, more, rfl, identifier.2 first (by simp)⟩

/-- A text that begins like a name does not begin with another character. -/
theorem after?_identifier {start : String} {c : Char} (shape : start.toList.head? = some c)
    (stops : Naming.isFieldChar c = false) (identifier : IsIdentifier name) (rest : List Char) :
    after? start (name ++ rest) = none := by
  rcases isFieldChar_head identifier with ⟨first, more, rfl, inside⟩
  apply after?_eq_none
  have differs : (c == first) = false := by
    rw [beq_eq_false_iff_ne]
    rintro rfl
    rw [inside] at stops
    cases stops
  rcases List.head?_eq_some_iff.mp shape with ⟨others, spelled⟩
  rw [spelled, List.cons_append, List.isPrefixOf, differs, Bool.false_and]

theorem braced?_identifier (identifier : IsIdentifier name) (rest : List Char) :
    braced? (name ++ rest) = none := by
  unfold braced?
  rw [after?_identifier rfl (by decide) identifier]
  rfl

theorem named?_named (given : names ≠ []) (listed : ∀ name ∈ names, IsListed name.toList)
    (quotable : IsQuotable path.toList) :
    named? (Import.named names ++ ' ' :: sourceClause path) = some { path, names } := by
  unfold named?
  rw [braced?_named given listed quotable]

theorem named?_both (identifier : IsIdentifier name) (given : names ≠ [])
    (listed : ∀ name ∈ names, IsListed name.toList) (quotable : IsQuotable path.toList) :
    named? (name ++ ',' :: ' ' :: (Import.named names ++ ' ' :: sourceClause path)) =
      some { path, names, defaultName := some (String.ofList name) } := by
  have comma : after? "," (dropBlanks
      (',' :: ' ' :: (Import.named names ++ ' ' :: sourceClause path))) =
      some (' ' :: (Import.named names ++ ' ' :: sourceClause path)) :=
    after?_append "," _
  have blank : dropBlanks (' ' :: (Import.named names ++ ' ' :: sourceClause path)) =
      Import.named names ++ ' ' :: sourceClause path := rfl
  unfold named?
  rw [braced?_identifier identifier, name?_append identifier (by decide)]
  dsimp only [Option.bind_eq_bind, Option.bind_some]
  rw [comma]
  dsimp only [Option.bind_eq_bind, Option.bind_some]
  rw [blank, braced?_named given listed quotable]
  rfl

theorem named?_eq_none_of_default (identifier : IsIdentifier name) (path : String) :
    named? (name ++ ' ' :: sourceClause path) = none := by
  have blank : dropBlanks (' ' :: sourceClause path) = sourceClause path := rfl
  have absent : after? "," (sourceClause path) = none := after?_eq_none rfl
  unfold named?
  rw [braced?_identifier identifier, name?_append identifier (by decide)]
  dsimp only [Option.bind_eq_bind, Option.bind_some]
  rw [blank, absent]
  rfl

theorem named?_eq_none_of_space : named? ("* as ".toList ++ rest) = none :=
  rfl

/-- Behind the keyword of types nothing but a list of names goes on. -/
theorem named?_eq_none_of_type {c : Char} (blank : Text.isBlank c = false) (differs : c ≠ ',') :
    named? ("type ".toList ++ c :: rest) = none := by
  have word := isIdentifier_type
  have shape : "type ".toList ++ c :: rest = "type".toList ++ ' ' :: c :: rest := rfl
  have skipped : dropBlanks (' ' :: c :: rest) = dropBlanks (c :: rest) := rfl
  have solid : dropBlanks (c :: rest) = c :: rest :=
    List.dropWhile_cons_of_neg (by simp [blank])
  have absent : after? "," (c :: rest) = none := by
    apply after?_eq_none
    have other : (',' == c) = false := beq_eq_false_iff_ne.mpr (Ne.symm differs)
    change (',' == c && _) = false
    rw [other, Bool.false_and]
  unfold named?
  rw [shape, braced?_identifier word, name?_append word (by decide)]
  dsimp only [Option.bind_eq_bind, Option.bind_some]
  rw [skipped, solid, absent]
  rfl

theorem namespace?_space (identifier : IsIdentifier name) (quotable : IsQuotable path.toList) :
    (namespace? ("* as ".toList ++ (name ++ ' ' :: sourceClause path))) =
      some { path, asName := some (String.ofList name) } := by
  have blank : after? " " (' ' :: sourceClause path) = some (sourceClause path) :=
    after?_append " " _
  unfold namespace?
  rw [after?_append]
  dsimp only [Option.bind_eq_bind, Option.bind_some]
  rw [name?_append identifier (by decide)]
  dsimp only [Option.bind_eq_bind, Option.bind_some]
  rw [blank]
  dsimp only [Option.bind_eq_bind, Option.bind_some]
  rw [source?_sourceClause quotable]
  rfl

theorem namespace?_eq_none_of_identifier (identifier : IsIdentifier name) (rest : List Char) :
    (namespace? (name ++ rest)) = none := by
  unfold namespace?
  rw [after?_identifier rfl (by decide) identifier]
  rfl

theorem default?_default (identifier : IsIdentifier name) (quotable : IsQuotable path.toList) :
    default? (name ++ ' ' :: sourceClause path) =
      some { path, defaultName := some (String.ofList name) } := by
  have blank : after? " " (' ' :: sourceClause path) = some (sourceClause path) :=
    after?_append " " _
  unfold default?
  rw [name?_append identifier (by decide)]
  dsimp only [Option.bind_eq_bind, Option.bind_some]
  rw [blank]
  dsimp only [Option.bind_eq_bind, Option.bind_some]
  rw [source?_sourceClause quotable]
  rfl

theorem typedOrNot_of_typed (read : form text = some statement) :
    typedOrNot form ("type ".toList ++ text) = some { statement with onlyType := true } := by
  unfold typedOrNot
  rw [after?_append, Option.bind_some, read]

theorem typedOrNot_eq_none (absent : form text = none)
    (absent' : form ("type ".toList ++ text) = none) :
    typedOrNot form ("type ".toList ++ text) = none := by
  unfold typedOrNot
  rw [after?_append, Option.bind_some, absent]
  exact absent'

theorem typedOrNot_of_plain (plain : after? "type " text = none) :
    typedOrNot form text = form text := by
  unfold typedOrNot
  rw [plain]
  rfl

/-- The keyword of types is a name, so it is the name that a text begins with or none of it. -/
theorem after?_type_identifier (identifier : IsIdentifier name) (other : name ≠ "type".toList)
    {c : Char} (stops : Naming.isFieldChar c = false) (rest : List Char) :
    after? "type " (name ++ c :: rest) = none := by
  apply after?_eq_none
  rw [Bool.eq_false_iff]
  intro front
  rcases List.isPrefixOf_iff_prefix.mp front with ⟨more, whole⟩
  have word := isIdentifier_type
  have first := name?_append identifier stops rest
  have second := name?_append word (c := ' ') (by decide) more
  have same : "type".toList ++ ' ' :: more = name ++ c :: rest := whole
  rw [same, first] at second
  cases second
  exact other rfl

theorem statement?_of_named {body : List Char} (read : typedOrNot named? body = some statement) :
    statement? ("import ".toList ++ body) = some statement := by
  unfold statement?
  rw [after?_append]
  dsimp only [Option.bind_eq_bind, Option.bind_some]
  rw [read]

theorem statement?_of_namespace {body : List Char} (absent : typedOrNot named? body = none)
    (read : typedOrNot namespace? body = some statement) :
    statement? ("import ".toList ++ body) = some statement := by
  unfold statement?
  rw [after?_append]
  dsimp only [Option.bind_eq_bind, Option.bind_some]
  rw [absent, read]

theorem statement?_of_default {body : List Char} (absent : typedOrNot named? body = none)
    (absent' : typedOrNot namespace? body = none)
    (read : typedOrNot default? body = some statement)
    (named : statement.defaultName ≠ some "type") :
    statement? ("import ".toList ++ body) = some statement := by
  unfold statement?
  rw [after?_append]
  dsimp only [Option.bind_eq_bind, Option.bind_some]
  rw [absent, absent', read]
  simp [named]

section Lines

theorem keyword_append (onlyType : Bool) (body : List Char) :
    Import.keyword onlyType ++ body =
      "import ".toList ++ (if onlyType then "type ".toList ++ body else body) := by
  unfold Import.keyword
  cases onlyType <;> rfl

theorem statement?_named (onlyType : Bool) (given : names ≠ [])
    (listed : ∀ name ∈ names, IsListed name.toList) (quotable : IsQuotable path.toList) :
    statement? (Import.keyword onlyType ++ (Import.named names ++ ' ' :: sourceClause path)) =
      some { path, names, onlyType } := by
  have read := named?_named given listed quotable
  rw [keyword_append]
  apply statement?_of_named
  cases onlyType with
  | true => exact typedOrNot_of_typed read
  | false =>
      have plain : after? "type " (Import.named names ++ ' ' :: sourceClause path) = none :=
        after?_eq_none rfl
      exact (typedOrNot_of_plain plain).trans read

theorem statement?_both (identifier : IsIdentifier name) (other : name ≠ "type".toList)
    (given : names ≠ []) (listed : ∀ name ∈ names, IsListed name.toList)
    (quotable : IsQuotable path.toList) :
    statement? (Import.keyword false ++
        (name ++ ',' :: ' ' :: (Import.named names ++ ' ' :: sourceClause path))) =
      some { path, names, defaultName := some (String.ofList name) } := by
  have plain := after?_type_identifier identifier other (by decide : Naming.isFieldChar ',' = false)
    (' ' :: (Import.named names ++ ' ' :: sourceClause path))
  rw [keyword_append]
  apply statement?_of_named
  exact (typedOrNot_of_plain plain).trans (named?_both identifier given listed quotable)

theorem statement?_space (onlyType : Bool) (identifier : IsIdentifier name)
    (quotable : IsQuotable path.toList) :
    statement? (Import.keyword onlyType ++
        ("* as ".toList ++ (name ++ ' ' :: sourceClause path))) =
      some { path, asName := some (String.ofList name), onlyType } := by
  have read := namespace?_space identifier quotable
  have plain : after? "type " ("* as ".toList ++ (name ++ ' ' :: sourceClause path)) = none :=
    after?_eq_none rfl
  have unnamed : named? ("* as ".toList ++ (name ++ ' ' :: sourceClause path)) = none :=
    named?_eq_none_of_space
  rw [keyword_append]
  cases onlyType with
  | true =>
      apply statement?_of_namespace
      · exact typedOrNot_eq_none unnamed (named?_eq_none_of_type (by decide) (by decide))
      · exact typedOrNot_of_typed read
  | false =>
      apply statement?_of_namespace
      · exact (typedOrNot_of_plain plain).trans unnamed
      · exact (typedOrNot_of_plain plain).trans read

theorem statement?_default (onlyType : Bool) (identifier : IsIdentifier name)
    (other : name ≠ "type".toList) (quotable : IsQuotable path.toList) :
    statement? (Import.keyword onlyType ++ (name ++ ' ' :: sourceClause path)) =
      some { path, defaultName := some (String.ofList name), onlyType } := by
  have read := default?_default identifier quotable
  have unnamed := named?_eq_none_of_default identifier path
  have unspaced := namespace?_eq_none_of_identifier identifier (' ' :: sourceClause path)
  have plain := after?_type_identifier identifier other (by decide : Naming.isFieldChar ' ' = false)
    (sourceClause path)
  have different : some (String.ofList name) ≠ some "type" := by
    intro same
    rw [Option.some.injEq] at same
    rw [← String.toList_ofList (l := name), same] at other
    exact other rfl
  rw [keyword_append]
  -- The named form is tried on the keyword of types too, where it takes the keyword for a name.
  cases onlyType with
  | true =>
      have behind : named? ("type ".toList ++ (name ++ ' ' :: sourceClause path)) = none := by
        rcases isFieldChar_head identifier with ⟨first, more, rfl, inside⟩
        apply named?_eq_none_of_type (isBlank_of_isFieldChar inside)
        rintro rfl
        exact absurd inside (by decide)
      apply statement?_of_default
      · exact typedOrNot_eq_none unnamed behind
      · exact typedOrNot_eq_none unspaced (namespace?_eq_none_of_identifier isIdentifier_type _)
      · exact typedOrNot_of_typed read
      · exact different
  | false =>
      apply statement?_of_default
      · exact (typedOrNot_of_plain plain).trans unnamed
      · exact (typedOrNot_of_plain plain).trans unspaced
      · exact (typedOrNot_of_plain plain).trans read
      · exact different

end Lines

end Forms

section Spaced

open Text

variable {names : List String}

theorem IsIdentifier.isWord {name : List Char} (identifier : IsIdentifier name) : IsWord name :=
  ⟨identifier.1, fun c member => isBlank_of_isFieldChar (identifier.2 c member)⟩

theorem spaced_sourceClause (solid : ∀ c ∈ path.toList, isBlank c = false) :
    Spaced (sourceClause path) := by
  have keyword : IsWord "from".toList := isWord_of_all (by decide) (by decide)
  have quoted : IsWord ('\'' :: (path.toList ++ "';".toList)) := by
    refine ⟨List.cons_ne_nil _ _, fun c member => ?_⟩
    rcases List.mem_cons.mp member with rfl | inside
    · decide
    · rcases List.mem_append.mp inside with own | ends
      · exact solid c own
      · exact (isWord_of_all (by decide) (by decide) : IsWord "';".toList).2 c ends
  have shape : sourceClause path =
      "from".toList ++ ' ' :: ('\'' :: (path.toList ++ "';".toList)) := by
    unfold sourceClause
    simp
  rw [shape]
  exact (spaced_of_isWord keyword).append_space keyword.1 (spaced_of_isWord quoted) quoted.1

theorem spaced_commas (given : names ≠ []) (listed : ∀ name ∈ names, IsListed name.toList) :
    Spaced (", ".toList.intercalate (names.map String.toList)) ∧
      ", ".toList.intercalate (names.map String.toList) ≠ [] := by
  induction names with
  | nil => exact absurd rfl given
  | cons name rest ih =>
      have own := listed name (by simp)
      by_cases more : rest = []
      · rw [more, List.map_singleton, List.intercalate_singleton]
        exact ⟨own.spaced, own.given⟩
      · have later := ih more fun other member => listed other (by simp [member])
        have comma : IsWord [','] := isWord_of_all (by decide) (by decide)
        have shape : ", ".toList.intercalate ((name :: rest).map String.toList) =
            (name.toList ++ [',']) ++ ' ' :: ", ".toList.intercalate (rest.map String.toList) := by
          rw [List.map_cons, List.intercalate_cons_of_ne_nil (by simpa using more)]
          simp
        rw [shape]
        refine ⟨?_, by simp⟩
        exact (own.spaced.append (spaced_of_isWord comma)).append_space (by simp) later.1 later.2

theorem spaced_named (given : names ≠ []) (listed : ∀ name ∈ names, IsListed name.toList) :
    Spaced (Import.named names) ∧ Import.named names ≠ [] := by
  have opening : IsWord "\x7b".toList := isWord_of_all (by decide) (by decide)
  have closing : IsWord "\x7d".toList := isWord_of_all (by decide) (by decide)
  have commas := spaced_commas given listed
  have inner := commas.1.append_space commas.2 (spaced_of_isWord closing) closing.1
  have shape : Import.named names = "\x7b".toList ++
      ' ' :: (", ".toList.intercalate (names.map String.toList) ++ ' ' :: "\x7d".toList) := by
    unfold Import.named
    simp
  rw [shape]
  exact ⟨(spaced_of_isWord opening).append_space opening.1 inner (by simp), by simp⟩

theorem spaced_line (onlyType : Bool) {clause : List Char} (spaced : Spaced clause)
    (given : clause ≠ []) (solid : ∀ c ∈ path.toList, isBlank c = false) :
    Spaced (Import.keyword onlyType ++ (clause ++ ' ' :: sourceClause path)) := by
  have keyword : IsWord "import".toList := isWord_of_all (by decide) (by decide)
  have typed : IsWord "type".toList := isWord_of_all (by decide) (by decide)
  have source : sourceClause path ≠ [] := by
    unfold sourceClause
    simp
  have body := spaced.append_space given (spaced_sourceClause solid) source
  unfold Import.keyword
  split
  · have more := (spaced_of_isWord typed).append_space typed.1 body (by simp)
    have whole := (spaced_of_isWord keyword).append_space keyword.1 more (by simp)
    exact whole
  · have whole := (spaced_of_isWord keyword).append_space keyword.1 body (by simp)
    exact whole

end Spaced

end ImportText

theorem ImportEntry.parse_of_spaced {text : List Char} {statement : Import}
    (spaced : Text.Spaced text) (read : ImportText.statement? text = some statement) :
    ImportEntry.parse text = .item statement := by
  unfold parse
  rw [spaced, read]

end TypedClient

import Mathlib.Data.Set.Operations
import TypedClient.Proofs.Api.Generated
import TypedClient.Proofs.Interface.Comment
import TypedClient.Proofs.Naming.Url

/-!
The placeholders in the URL of a function and the path parameters that it declares. The parameters
are read segment by segment, at most one in each; the placeholders are found in the path as a whole.
Both readings agree on a path whose segments are clear.
-/

namespace TypedClient

namespace Url

def opensName : List Char → Bool
  | ':' :: c :: _ => c.isAlpha || c == '_'
  | _ => false

/-- A segment with one parameter at most, written in one way: fixed text, a name in braces, or a
word behind the colon that opens the segment, with nothing after it that a field name may hold. So
no segment has two names or a brace left open, and no braced name runs into the next segment. -/
inductive Clear : List Char → Prop
  | fixed {text : List Char} (plain : '\x7b' ∉ text)
      (colon : text.head? = some ':' → text = [':']) : Clear text
  | braced {before name after : List Char} (front : '\x7b' ∉ before)
      (first : opensName before = false) (given : name ≠ [])
      (whole : ∀ c ∈ name, c ≠ '\x7d' ∧ c ≠ '\n') (back : '\x7b' ∉ after) :
      Clear (before ++ '\x7b' :: (name ++ '\x7d' :: after))
  | named {c : Char} {word after : List Char} (opens : (c.isAlpha || c == '_') = true)
      (inside : ∀ d ∈ word, Text.isWord d = true)
      (back : ∀ d ∈ after, Naming.isFieldChar d = false ∧ d ≠ '\x7b' ∧ d ≠ '\n') :
      Clear (':' :: c :: (word ++ after))

def field? (segment : List Char) : Option String :=
  (parameter? segment).map fun name => sanitizeIdentifier (String.ofList name)

section Segment

variable {text before name after word tail : List Char}

def Breaks (tail : List Char) : Prop := ∀ c ∈ tail.head?, c = '/' ∨ c = '\x7b'

theorem opensName_of_ne {c : Char} (differs : c ≠ ':') : opensName (c :: text) = false := by
  unfold opensName
  split
  · rename_i d rest same
    exact absurd (List.cons.inj same).1 differs
  · rfl

theorem opensName_append (breaks : Breaks tail) :
    opensName (text ++ tail) = opensName text := by
  cases text with
  | nil =>
      cases tail with
      | nil => rfl
      | cons c rest => rcases breaks c rfl with rfl | rfl <;> rfl
  | cons first more =>
      by_cases colon : first = ':'
      · subst colon
        cases more with
        | nil =>
            cases tail with
            | nil => rfl
            | cons c rest => rcases breaks c rfl with rfl | rfl <;> rfl
        | cons second others => rfl
      · rw [List.cons_append, opensName_of_ne colon, opensName_of_ne colon]

theorem bracedFrom_of_plain (plain : '\x7b' ∉ text) : bracedFrom text = none := by
  induction text with
  | nil => rfl
  | cons c rest ih =>
      simp only [List.mem_cons, not_or] at plain
      rw [bracedFrom]
      · exact ih plain.2
      · intro first tail same
        exact absurd same.symm plain.1

theorem bracedFrom_braced (front : '\x7b' ∉ before) (given : name ≠ [])
    (whole : ∀ c ∈ name, c ≠ '\x7d' ∧ c ≠ '\n') :
    bracedFrom (before ++ '\x7b' :: (name ++ '\x7d' :: after)) = some name := by
  induction before with
  | nil =>
      obtain ⟨first, rest, rfl⟩ := List.exists_cons_of_ne_nil given
      have opened : (first == '\n') = false := by simpa using (whole first (by simp)).2
      have taken : (rest ++ '\x7d' :: after).takeWhile (fun d => d != '\x7d' && d != '\n') = rest :=
        Text.takeWhile_of_stop (fun c member => by simpa using whole c (by simp [member])) (by simp)
      simp only [List.nil_append, List.cons_append, bracedFrom, opened, taken, List.drop_left,
        Bool.false_eq_true, if_false]
  | cons c rest ih =>
      simp only [List.mem_cons, not_or] at front
      rw [List.cons_append, bracedFrom]
      · exact ih front.2
      · intro first tail same
        exact absurd same.symm front.1

theorem colonName?_of_first (colon : text.head? = some ':' → text = [':']) :
    colonName? text = none := by
  unfold colonName?
  split
  · rename_i c rest
    exact absurd (colon rfl) (by simp)
  · rfl

theorem field?_fixed (plain : '\x7b' ∉ text) (colon : text.head? = some ':' → text = [':']) :
    field? text = none := by
  rw [field?, parameter?, bracedFrom_of_plain plain]
  dsimp only
  rw [colonName?_of_first colon, Option.map_none]

theorem field?_braced (front : '\x7b' ∉ before) (given : name ≠ [])
    (whole : ∀ c ∈ name, c ≠ '\x7d' ∧ c ≠ '\n') :
    field? (before ++ '\x7b' :: (name ++ '\x7d' :: after)) =
      some (sanitizeIdentifier (String.ofList name)) := by
  rw [field?, parameter?, bracedFrom_braced front given whole]
  rfl

theorem isWord_of_opens {c : Char} (opens : (c.isAlpha || c == '_') = true) :
    Text.isWord c = true := by
  rcases Bool.or_eq_true_iff.mp opens with letter | underscore
  · have plain : c.isAlphanum = true := by simp [Char.isAlphanum, letter]
    rw [Text.isWord, Text.isAlphanumeric, if_pos (Text.ascii_of_isAlphanum plain), plain]
    exact Bool.or_true _
  · rw [Text.isWord, underscore, Bool.true_or]

theorem not_mem_word {c : Char} (apart : Text.isWord c = false)
    (inside : ∀ d ∈ word, Text.isWord d = true) : c ∉ word := by
  intro member
  rw [inside c member] at apart
  cases apart

theorem sanitize_append (back : ∀ d ∈ after, Naming.isFieldChar d = false) :
    sanitizeIdentifier (String.ofList (name ++ after)) =
      sanitizeIdentifier (String.ofList name) := by
  have nothing : after.filter Naming.isFieldChar = [] := by
    rw [List.filter_eq_nil_iff]
    intro d member
    simp [back d member]
  simp [sanitizeIdentifier, nothing]

theorem field?_named {c : Char} (opens : (c.isAlpha || c == '_') = true)
    (inside : ∀ d ∈ word, Text.isWord d = true)
    (back : ∀ d ∈ after, Naming.isFieldChar d = false ∧ d ≠ '\x7b' ∧ d ≠ '\n') :
    field? (':' :: c :: (word ++ after)) =
      some (sanitizeIdentifier (String.ofList (c :: word))) := by
  have spelled : ∀ d ∈ c :: word, Text.isWord d = true := by
    simpa using ⟨isWord_of_opens opens, inside⟩
  have plain : '\x7b' ∉ ':' :: (c :: word ++ after) := by
    have braceless := not_mem_word (by decide : Text.isWord '\x7b' = false) spelled
    have behind : '\x7b' ∉ after := fun member => (back _ member).2.1 rfl
    simpa [behind] using braceless
  have whole : (c :: word ++ after).contains '\n' = false := by
    have unbroken := not_mem_word (by decide : Text.isWord '\n' = false) spelled
    have behind : '\n' ∉ after := fun member => (back _ member).2.2 rfl
    simpa [behind] using unbroken
  rw [← List.cons_append, field?, parameter?, bracedFrom_of_plain plain]
  dsimp only
  rw [List.cons_append, colonName?, ← List.cons_append, whole, if_neg Bool.false_ne_true,
    Option.map_some, sanitize_append fun d member => (back d member).1]

end Segment

end Url

section Scan

variable {text tail : List Char} {previous : Option Char}

theorem urlParts_cons {c : Char} (plain : paramAt? previous (c :: text) = none) :
    urlParts previous (c :: text) = .char c :: urlParts (some c) text := by
  rw [urlParts]
  split
  · rename_i name rest found
    rw [plain] at found
    cases found
  · rfl

theorem urlParts_of_found {name : List Char} (found : paramAt? previous text = some (name, tail)) :
    urlParts previous text = .param (String.ofList name) :: urlParts (some '\x7d') tail := by
  cases text with
  | nil => cases found
  | cons c rest =>
      rw [urlParts]
      split
      · rename_i name rest found'
        rw [found] at found'
        cases found'
        rfl
      · rename_i plain
        rw [found] at plain
        cases plain

theorem colonParam?_eq_none (first : previous = some '/' → Url.opensName text = false) :
    colonParam? previous text = none := by
  unfold colonParam?
  split
  · rename_i c rest
    rw [if_neg]
    intro opens
    rw [Bool.and_eq_true, beq_iff_eq] at opens
    have closed := first opens.1
    rw [Url.opensName, opens.2] at closed
    cases closed
  · rfl

theorem bracedParam?_of_ne {c : Char} (plain : c ≠ '\x7b') : bracedParam? (c :: text) = none := by
  unfold bracedParam?
  split
  · rename_i rest same
    exact absurd (List.cons.inj same).1 plain
  · rfl

theorem bracedParam?_braced {name : List Char} (given : name ≠ [])
    (whole : ∀ c ∈ name, c ≠ '\x7d') :
    bracedParam? ('\x7b' :: (name ++ '\x7d' :: tail)) = some (name, tail) := by
  have taken : (name ++ '\x7d' :: tail).takeWhile (· != '\x7d') = name :=
    Text.takeWhile_of_stop (fun c member => by simpa using whole c member) (by simp)
  simp only [bracedParam?, taken, List.drop_left, List.isEmpty_eq_false_iff.mpr given,
    Bool.false_eq_true, if_false]

theorem colonParam?_named {c : Char} {word : List Char} (opens : (c.isAlpha || c == '_') = true)
    (inside : ∀ d ∈ word, Text.isWord d = true) (stops : ∀ d ∈ tail.head?, Text.isWord d = false) :
    colonParam? (some '/') (':' :: c :: (word ++ tail)) = some (c :: word, tail) := by
  have dropped : (word ++ tail).dropWhile Text.isWord = tail := by
    rw [List.dropWhile_append_of_pos inside, Text.dropWhile_of_head stops]
  simp only [colonParam?, beq_self_eq_true, opens, Bool.and_true, if_true, dropped,
    Text.takeWhile_of_stop inside stops]

/-- What was read before does not count behind a segment. -/
theorem urlParts_of_breaks (breaks : Url.Breaks tail) :
    urlParts previous tail = urlParts none tail := by
  have unnamed : Url.opensName tail = false := @Url.opensName_append [] tail breaks
  have same : paramAt? previous tail = paramAt? none tail := by
    rw [paramAt?, paramAt?, colonParam?_eq_none fun _ => unnamed,
      colonParam?_eq_none fun _ => unnamed]
  cases found : paramAt? none tail with
  | some result =>
      rw [urlParts_of_found found, urlParts_of_found (same.trans found)]
  | none =>
      cases tail with
      | nil => rw [urlParts, urlParts]
      | cons c rest => rw [urlParts_cons found, urlParts_cons (same.trans found)]

theorem urlParts_plain (plain : '\x7b' ∉ text) (solid : '/' ∉ text) (breaks : Url.Breaks tail)
    (first : previous = some '/' → Url.opensName text = false) :
    urlParts previous (text ++ tail) = text.map .char ++ urlParts none tail := by
  -- a colon counts only at the start of a segment, so `first` is needed for the first step alone
  induction text generalizing previous with
  | nil => exact urlParts_of_breaks breaks
  | cons c rest ih =>
      simp only [List.mem_cons, not_or] at plain solid
      have nothing : paramAt? previous (c :: (rest ++ tail)) = none := by
        rw [paramAt?, bracedParam?_of_ne (Ne.symm plain.1)]
        apply colonParam?_eq_none
        rw [← List.cons_append, Url.opensName_append breaks]
        exact first
      have later := ih plain.2 solid.2 fun slash => absurd (Option.some.inj slash).symm solid.1
      rw [List.cons_append, urlParts_cons nothing, later, List.map_cons, List.cons_append]

def UrlPart.field? : UrlPart → Option String
  | param name => some (sanitizeIdentifier name)
  | char _ => none

/-- The parts read these fields, and no brace stands between them. -/
structure Shows (parts : List UrlPart) (fields : List String) : Prop where
  plain : .char '\x7b' ∉ parts
  read : parts.filterMap UrlPart.field? = fields

namespace Shows

variable {parts parts' : List UrlPart} {fields fields' : List String}

theorem append (shows : Shows parts fields) (shows' : Shows parts' fields') :
    Shows (parts ++ parts') (fields ++ fields') where
  plain := by simp [shows.plain, shows'.plain]
  read := by rw [List.filterMap_append, shows.read, shows'.read]

theorem chars (plain : '\x7b' ∉ text) : Shows (text.map .char) [] where
  plain := by simpa using plain
  read := by
    rw [List.filterMap_map, List.filterMap_eq_nil_iff]
    exact fun c _ => rfl

theorem param (name : String) : Shows [.param name] [sanitizeIdentifier name] where
  plain := by simp
  read := rfl

end Shows

/-- A clear segment is read to its end, and shows the field that is declared for it. -/
theorem Url.Clear.shows {segment : List Char} (clear : Url.Clear segment) (solid : '/' ∉ segment)
    (ends : ∀ c ∈ tail.head?, c = '/') :
    ∃ parts, urlParts (some '/') (segment ++ tail) = parts ++ urlParts none tail ∧
      Shows parts (Url.field? segment).toList := by
  have breaks : Url.Breaks tail := fun c first => .inl (ends c first)
  cases clear with
  | fixed plain colon =>
      rw [Url.field?_fixed plain colon]
      refine ⟨_, urlParts_plain plain solid breaks fun _ => ?_, .chars plain⟩
      unfold Url.opensName
      split
      · exact absurd (colon rfl) (by simp)
      · rfl
  | @braced before name after front first given whole back =>
      rw [Url.field?_braced front given whole]
      simp only [List.mem_append, List.mem_cons, not_or] at solid
      have found : paramAt? none ('\x7b' :: (name ++ '\x7d' :: (after ++ tail))) =
          some (name, after ++ tail) := by
        rw [paramAt?, bracedParam?_braced given fun c member => (whole c member).1]
      have opened : Url.Breaks ('\x7b' :: (name ++ '\x7d' :: (after ++ tail))) := by
        simp [Url.Breaks]
      have later : urlParts (some '\x7d') (after ++ tail) = after.map .char ++ urlParts none tail :=
        urlParts_plain back solid.2.2.2.2 breaks (by simp)
      refine ⟨before.map .char ++ ([.param (String.ofList name)] ++ after.map .char), ?_,
        (Shows.chars front).append ((Shows.param _).append (.chars back))⟩
      simp only [List.append_assoc, List.cons_append] at *
      rw [urlParts_plain front solid.1 opened fun _ => first, urlParts_of_found found, later]
      rfl
  | @named c word after opens inside back =>
      rw [Url.field?_named opens inside back]
      simp only [List.mem_cons, List.mem_append, not_or] at solid
      have stops : ∀ d ∈ (after ++ tail).head?, Text.isWord d = false := by
        intro d first
        cases after with
        | nil =>
            rw [ends d first]
            decide
        | cons e rest =>
            obtain rfl : e = d := Option.some.inj first
            exact (Bool.or_eq_false_iff.mp (back e (by simp)).1).1
      have found : paramAt? (some '/') (':' :: c :: (word ++ (after ++ tail))) =
          some (c :: word, after ++ tail) := by
        rw [paramAt?, bracedParam?_of_ne (by decide)]
        exact colonParam?_named opens inside stops
      have braceless : '\x7b' ∉ after := fun member => (back _ member).2.1 rfl
      have later : urlParts (some '\x7d') (after ++ tail) = after.map .char ++ urlParts none tail :=
        urlParts_plain braceless solid.2.2.2 breaks (by simp)
      refine ⟨[.param (String.ofList (c :: word))] ++ after.map .char, ?_,
        (Shows.param _).append (.chars braceless)⟩
      rw [List.cons_append, List.cons_append, List.append_assoc, urlParts_of_found found, later]
      rfl

theorem shows_path {pieces : List (List Char)} (clear : ∀ piece ∈ pieces, Url.Clear piece)
    (solid : ∀ piece ∈ pieces, '/' ∉ piece) (previous : Option Char) :
    Shows (urlParts previous (pieces.flatMap ('/' :: ·))) (pieces.filterMap Url.field?) := by
  induction pieces generalizing previous with
  | nil => exact ⟨by simp [urlParts], by simp [urlParts]⟩
  | cons piece rest ih =>
      have later := ih (fun other member => clear other (by simp [member]))
        (fun other member => solid other (by simp [member])) none
      have ends : ∀ c ∈ (rest.flatMap ('/' :: ·)).head?, c = '/' := by
        cases rest <;> simp
      obtain ⟨parts, scanned, own⟩ := (clear piece (by simp)).shows (solid piece (by simp)) ends
      have slash : paramAt? previous ('/' :: (piece ++ rest.flatMap ('/' :: ·))) = none := by
        rw [paramAt?, bracedParam?_of_ne (by decide)]
        exact colonParam?_eq_none fun _ => Url.opensName_of_ne (by decide)
      have gathered : (piece :: rest).filterMap Url.field? =
          (Url.field? piece).toList ++ rest.filterMap Url.field? := by
        cases shown : Url.field? piece <;> simp [shown]
      rw [List.flatMap_cons, List.cons_append, urlParts_cons slash, scanned, gathered]
      exact (@Shows.chars ['/'] (by decide)).append (own.append later)

end Scan

section Expression

variable {parts : List UrlPart} {fields : List String} {name : String}

theorem not_mem_sanitizeIdentifier {c : Char} (apart : Naming.isFieldChar c = false)
    (name : String) : c ∉ (sanitizeIdentifier name).toList := by
  simp [sanitizeIdentifier, apart]

/-- The names that a text puts in as parameters. -/
def placeholders (text : String) : Set String :=
  {name | (∀ c ∈ name.toList, Naming.isFieldChar c = true) ∧
    ("$\x7bparams." ++ name ++ "\x7d").toList <:+: text.toList}

-- a dollar sign may also stand in the fixed text of a path, a brace may not
def access (name : String) : List Char := '\x7b' :: ("params.".toList ++ (name.toList ++ ['\x7d']))

theorem toList_placeholder (name : String) :
    ("$\x7bparams." ++ name ++ "\x7d").toList = '$' :: access name := by
  simp only [String.toList_append, access, List.append_assoc]
  rfl

theorem eq_or_infix_of_access {other : String} {rest : List Char} (closed : '\x7d' ∉ name.toList)
    (opened : '\x7b' ∉ other.toList) (closed' : '\x7d' ∉ other.toList)
    (inside : access name <:+: access other ++ rest) : name = other ∨ access name <:+: rest := by
  have shape : access other ++ rest =
      '\x7b' :: ("params.".toList ++ (other.toList ++ ['\x7d']) ++ rest) := rfl
  rw [access.eq_1 name, shape, List.infix_cons_iff] at inside
  rcases inside with ⟨tail, whole⟩ | behind
  · simp only [List.cons_append, List.append_assoc, List.cons.injEq, true_and,
      List.append_cancel_left_eq, List.nil_append] at whole
    have ended := congrArg (List.idxOf '\x7d') whole
    rw [List.idxOf_append_of_notMem closed, List.idxOf_append_of_notMem closed',
      List.idxOf_cons_self, List.idxOf_cons_self] at ended
    exact .inl (String.toList_inj.mp (List.append_inj_left whole (Nat.add_right_cancel ended)))
  · have braceless : '\x7b' ∉ "params.".toList ++ (other.toList ++ ['\x7d']) := by
      simpa using opened
    exact .inr (Text.infix_of_absent braceless behind)

theorem mem_of_infix_parts (plain : .char '\x7b' ∉ parts) (closed : '\x7d' ∉ name.toList)
    (inside : access name <:+: (String.join (parts.map UrlPart.text)).toList) :
    name ∈ parts.filterMap UrlPart.field? := by
  induction parts with
  | nil => simp [String.join, access] at inside
  | cons part rest ih =>
      have later := ih fun member => plain (List.mem_cons_of_mem _ member)
      rw [List.map_cons, String.join_cons, String.toList_append] at inside
      cases part with
      | char c =>
          have differs : '\x7b' ∉ (UrlPart.char c).text.toList := by
            intro member
            rw [UrlPart.text, String.toList_singleton, List.mem_singleton] at member
            exact plain (member ▸ List.mem_cons_self)
          exact later (Text.infix_of_absent differs inside)
      | param other =>
          have opened := @not_mem_sanitizeIdentifier '\x7b' (by decide) other
          have closed' := @not_mem_sanitizeIdentifier '\x7d' (by decide) other
          rw [UrlPart.text, toList_placeholder, ← List.singleton_append, List.append_assoc]
            at inside
          have behind := Text.infix_of_absent (by decide) inside
          rw [List.filterMap_cons_some (by rfl), List.mem_cons]
          exact (eq_or_infix_of_access closed opened closed' behind).imp id later

theorem join_urlParts {previous : Option Char} {text : List Char}
    (fixed : (urlParts previous text).any UrlPart.isParam = false) :
    String.join ((urlParts previous text).map UrlPart.text) = String.ofList text := by
  rw [← String.toList_inj, String.toList_join, List.flatMap_map, String.toList_ofList]
  fun_induction urlParts previous text with
  | case1 => rfl
  | case2 previous c rest name tail found ih => simp [UrlPart.isParam] at fixed
  | case3 previous c rest nothing ih =>
      rw [List.any_cons, UrlPart.isParam, Bool.false_or] at fixed
      rw [List.flatMap_cons, ih fixed, UrlPart.text, String.toList_singleton]
      rfl

theorem exists_urlExpression (url : String) : ∃ quote, quote ≠ '\x7b' ∧
    urlExpression url = String.join
      ((.char quote :: (urlParts none url.toList ++ [.char quote])).map UrlPart.text) := by
  have framed (quote : Char) : String.join
      ((.char quote :: (urlParts none url.toList ++ [.char quote])).map UrlPart.text) =
        String.singleton quote ++ String.join ((urlParts none url.toList).map UrlPart.text) ++
          String.singleton quote := by
    rw [List.map_cons, List.map_append, String.join_cons, String.join_append, String.append_assoc]
    simp [UrlPart.text]
  unfold urlExpression
  dsimp only
  split
  · exact ⟨'\x60', by decide, (framed '\x60').symm⟩
  · rename_i fixed
    refine ⟨'\'', by decide, ?_⟩
    rw [framed, join_urlParts (Bool.eq_false_iff.mpr fixed), String.ofList_toList]
    rfl

theorem placeholders_urlExpression {url : String}
    (shows : Shows (urlParts none url.toList) fields) :
    placeholders (urlExpression url) = {name | name ∈ fields} := by
  obtain ⟨quote, differs, spelled⟩ := exists_urlExpression url
  have quoted : Shows [.char quote] [] := @Shows.chars [quote] (by simpa using Ne.symm differs)
  have whole := quoted.append (shows.append quoted)
  rw [List.nil_append, List.append_nil] at whole
  ext name
  rw [placeholders, Set.mem_ofPred_eq, Set.mem_ofPred_eq, spelled, toList_placeholder]
  constructor
  · rintro ⟨word, inside⟩
    have closed : '\x7d' ∉ name.toList := fun member => absurd (word _ member) (by decide)
    rw [← whole.read]
    exact mem_of_infix_parts whole.plain closed
      ((List.suffix_cons '$' (access name)).isInfix.trans inside)
  · intro declared
    rw [← whole.read, List.mem_filterMap] at declared
    obtain ⟨part, member, read⟩ := declared
    cases part with
    | char c => cases read
    | param other =>
        cases read
        refine ⟨fun c held => ?_, ?_⟩
        · exact by_contra fun apart =>
            not_mem_sanitizeIdentifier (Bool.eq_false_iff.mpr apart) other held
        · have held := infix_join (List.mem_map_of_mem (f := UrlPart.text) member)
          rwa [UrlPart.text, toList_placeholder] at held

end Expression

theorem name_describePathParam (parameters : List Entries) (param : FieldOption) :
    (describePathParam parameters param).name = param.name := by
  induction parameters generalizing param with
  | nil => rfl
  | cons entries rest ih =>
      rw [describePathParam, List.foldl_cons, ← describePathParam, ih]
      split <;> rfl

/-- A function declares the path parameters under the names that the path gives. -/
theorem names_pathParamsOf (url : UrlNames) (parameters : List Entries) :
    (pathParamsOf url parameters).map (·.name) = url.pathParams := by
  rw [pathParamsOf, List.map_map]
  exact List.map_id'' (fun name => name_describePathParam parameters _) url.pathParams

/-- On a path of clear segments, the placeholders in the URL are the names of the path parameters,
so each has a declared field and each declared field is put in. -/
theorem placeholders_declared (operation : Operation) (options : GenerateOptions)
    (shown : ShownSchemas) (rooted : operation.path.toList.head? = some '/')
    (whole : '?' ∉ operation.path.toList)
    (clear : ∀ segment ∈ Url.segments operation.path.toList, Url.Clear segment) :
    placeholders (urlExpression operation.path) =
        {name | name ∈ (UrlNames.parse operation.path).pathParams.map sanitizeIdentifier} ∧
      placeholders (urlExpression (operation.context options shown).url) =
        {name | ∃ param ∈ (operation.context options shown).pathParams,
          sanitizeIdentifier param.name = name} := by
  obtain ⟨pieces, joined, kept, solid⟩ := Url.exists_pieces rooted whole
  have clear' : ∀ piece ∈ pieces, Url.Clear piece := by
    intro piece member
    by_cases empty : piece = []
    · exact empty ▸ .fixed (by simp) (by simp)
    · exact clear piece (kept ▸ List.mem_filter.mpr ⟨member, by simpa using empty⟩)
  have fields : pieces.filterMap Url.field? =
      (UrlNames.parse operation.path).pathParams.map sanitizeIdentifier := by
    rw [UrlNames.pathParams_parse, kept, List.map_filterMap, List.filterMap_filter]
    apply List.filterMap_congr
    intro piece member
    cases piece with
    | nil => rfl
    | cons c rest =>
        rw [if_pos (by rfl), Option.map_map]
        rfl
  have agree : placeholders (urlExpression operation.path) =
      {name | name ∈ (UrlNames.parse operation.path).pathParams.map sanitizeIdentifier} := by
    apply placeholders_urlExpression
    rw [joined, ← fields]
    exact shows_path clear' solid none
  refine ⟨agree, ?_⟩
  rw [Operation.context_url, Operation.context_pathParams, agree,
    ← names_pathParamsOf _ operation.parameters, List.map_map]
  ext name
  exact List.mem_map

def showRevision : Operation where
  path := "/users/\x7bid\x7d/files/:file/v\x7bmajor\x7d.json"
  method := "get"
  summary := none
  description := none
  tags := []
  operationId := none
  parameters := []
  requestBody := none
  responses := []
  deprecated := false

theorem clear_showRevision :
    ∀ segment ∈ Url.segments showRevision.path.toList, Url.Clear segment := by
  have listed : Url.segments showRevision.path.toList =
      ["users".toList, "\x7bid\x7d".toList, "files".toList, ":file".toList,
        "v\x7bmajor\x7d.json".toList] := by decide
  rw [listed]
  simp only [List.forall_mem_cons]
  refine ⟨.fixed (by decide) (by decide), ?_, .fixed (by decide) (by decide), ?_, ?_, by simp⟩
  · exact @Url.Clear.braced [] "id".toList [] (by decide) rfl (by decide)
      (Text.forall_of_all (by decide)) (by decide)
  · exact @Url.Clear.named 'f' "ile".toList [] (by decide) (Text.forall_of_all (by decide))
      (Text.forall_of_all (by decide))
  · exact @Url.Clear.braced ['v'] "major".toList ".json".toList (by decide) rfl (by decide)
      (Text.forall_of_all (by decide)) (by decide)

theorem placeholders_declared_revision :
    placeholders (urlExpression showRevision.path) =
        {name | name ∈ ["id", "file", "major"]} ∧
      placeholders (urlExpression (showRevision.context {} {}).url) =
        {name | ∃ param ∈ (showRevision.context {} {}).pathParams,
          sanitizeIdentifier param.name = name} := by
  have names : (UrlNames.parse showRevision.path).pathParams.map sanitizeIdentifier =
      ["id", "file", "major"] := by decide
  rw [← names]
  exact placeholders_declared showRevision {} {} (by decide) (by decide) clear_showRevision

/-- A path with two placeholders in one segment has only one of them declared. -/
example : urlExpression "/files/\x7bname\x7d.\x7bext\x7d" =
      "\x60/files/$\x7bparams.name\x7d.$\x7bparams.ext\x7d\x60" ∧
    (UrlNames.parse "/files/\x7bname\x7d.\x7bext\x7d").pathParams = ["name"] :=
  ⟨by cbv, by decide⟩

end TypedClient

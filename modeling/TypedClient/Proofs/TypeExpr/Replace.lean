import Mathlib.Data.List.Basic
import TypedClient.Proofs.Text.Trim
import TypedClient.Proofs.TypeExpr.Names

-- the name of a case serves the proof that the recursion ends
set_option linter.unusedVariables false

namespace TypedClient.TypeExpr

inductive Word
  | name (text : List Char)
  | literal (text : List Char)
  | other (c : Char)
  deriving DecidableEq, Repr

namespace Word

def text : Word → List Char
  | name text => text
  | literal text => text
  | other c => [c]

def name? : Word → Option String
  | name text => some (String.ofList text)
  | literal _ => none
  | other _ => none

def replaced (replacement : List (String × String)) : Word → List Char
  | name text => ((replacement.lookup (String.ofList text)).getD (String.ofList text)).toList
  | literal text => text
  | other c => [c]

theorem replaced_of_absent {replacement : List (String × String)} {word : Word}
    (absent : ∀ own, word.name? = some own → replacement.lookup own = none) :
    word.replaced replacement = word.text := by
  cases word with
  | name spelled =>
      have unknown := absent (String.ofList spelled) rfl
      simp [replaced, unknown, text]
  | literal spelled => rfl
  | other c => rfl

end Word

theorem afterQuote_suffix {text rest : List Char} (closed : afterQuote text = some rest) :
    rest <:+ text := by
  fun_induction afterQuote text with
  | case1 => cases closed
  | case2 tail =>
      cases closed
      exact List.suffix_cons _ _
  | case3 => cases closed
  | case4 => cases closed
  | case5 c tail plain ih => exact (ih closed).trans ⟨['\\', c], rfl⟩
  | case6 c tail _ _ _ ih => exact (ih closed).trans (List.suffix_cons _ _)

def words (text : List Char) : List Word :=
  match text with
  | [] => []
  | c :: rest =>
    if isNameStart c then
      .name (c :: rest.takeWhile Naming.isFieldChar) :: words (rest.dropWhile Naming.isFieldChar)
    else if c == '\'' then
      match closed : afterQuote rest with
      | some tail => .literal (c :: rest.take (rest.length - tail.length)) :: words tail
      | none => .other c :: words rest
    else .other c :: words rest
termination_by text.length
decreasing_by
  · have := (List.dropWhile_suffix Naming.isFieldChar : rest.dropWhile _ <:+ rest).length_le
    simp only [List.length_cons]
    omega
  · have := length_afterQuote closed
    simp only [List.length_cons]
    omega
  all_goals exact Nat.lt_add_one _

theorem flatMap_words (text : List Char) : (words text).flatMap Word.text = text := by
  fun_induction words text with
  | case1 => rfl
  | case2 c rest start ih =>
      rw [List.flatMap_cons, ih, Word.text, List.cons_append, List.takeWhile_append_dropWhile]
  | case3 c rest start quote tail closed ih =>
      obtain ⟨literal, rfl⟩ := afterQuote_suffix closed
      rw [List.flatMap_cons, ih, Word.text]
      simp
  | case4 c rest start quote closed ih =>
      rw [List.flatMap_cons, ih, Word.text, List.singleton_append]
  | case5 c rest start quote ih => rw [List.flatMap_cons, ih, Word.text, List.singleton_append]

theorem words_of_unnamed {text : List Char}
    (plain : ∀ c ∈ text, Naming.isFieldChar c = false ∧ c ≠ '\'') :
    words text = text.map .other := by
  induction text with
  | nil => rw [words, List.map_nil]
  | cons c rest ih =>
      obtain ⟨apart, quote⟩ := plain c (by simp)
      have shut : isNameStart c = false :=
        Bool.eq_false_iff.mpr fun start => by
          rw [isFieldChar_of_isNameStart start] at apart
          cases apart
      rw [words, if_neg (by simp [shut]), if_neg (by simp [quote]),
        ih fun other member => plain other (by simp [member]), List.map_cons]

/-- A name ends where a text without names and literals follows. -/
theorem words_name {first : Char} {rest tail : List Char} (start : isNameStart first = true)
    (inside : ∀ c ∈ rest, Naming.isFieldChar c = true)
    (plain : ∀ c ∈ tail, Naming.isFieldChar c = false ∧ c ≠ '\'') :
    words (first :: rest ++ tail) = .name (first :: rest) :: tail.map .other := by
  have stops : ∀ c ∈ tail.head?, Naming.isFieldChar c = false :=
    fun c first => (plain c (List.mem_of_mem_head? first)).1
  rw [List.cons_append, words, if_pos start, Text.takeWhile_of_stop inside stops,
    List.dropWhile_append_of_pos inside, Text.dropWhile_of_head stops, words_of_unnamed plain]

end TypedClient.TypeExpr

namespace TypedClient

open TypeExpr

def namesIn (type : String) : List String := (words type.toList).filterMap Word.name?

/-- The type with other texts for some of its names. -/
def replaceNames (replacement : List (String × String)) (type : String) : String :=
  String.ofList ((words type.toList).flatMap (Word.replaced replacement))

variable {replacement : List (String × String)}

theorem replaceNames_of_absent {type : String}
    (absent : ∀ name ∈ namesIn type, replacement.lookup name = none) :
    replaceNames replacement type = type := by
  have same : (words type.toList).flatMap (Word.replaced replacement) =
      (words type.toList).flatMap Word.text := by
    apply List.flatMap_congr
    intro word member
    exact Word.replaced_of_absent fun name named =>
      absent name (List.mem_filterMap.mpr ⟨word, member, named⟩)
  rw [replaceNames, same, flatMap_words, String.ofList_toList]

theorem replaceNames_name {name tail other : String} (named : isName name = true)
    (plain : ∀ c ∈ tail.toList, Naming.isFieldChar c = false ∧ c ≠ '\'')
    (found : replacement.lookup name = some other) :
    replaceNames replacement (name ++ tail) = other ++ tail := by
  obtain ⟨first, rest, spelled, start, inside⟩ := spelled_of_isName named
  have whole : String.ofList (first :: rest) = name := by rw [← spelled, String.ofList_toList]
  have others : (tail.toList.map Word.other).flatMap (Word.replaced replacement) = tail.toList := by
    rw [List.flatMap_map]
    exact List.flatMap_singleton' _
  rw [replaceNames, String.toList_append, spelled, words_name start inside plain, List.flatMap_cons,
    others, Word.replaced, whole, found, Option.getD_some, ← String.toList_append,
    String.ofList_toList]

end TypedClient

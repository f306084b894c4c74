import Mathlib.Data.List.TakeWhile
import TypedClient.Interface.Generics
import TypedClient.Proofs.Text.Case
import TypedClient.Proofs.Text.Part
import TypedClient.Proofs.TypeExpr.Names
import TypedClient.Schema.Resolve

namespace TypedClient

/-- A capital ASCII letter with ASCII letters and digits behind it, other than the name of lists. -/
def isPlainKey (key : String) : Bool :=
  (match key.toList with
    | first :: rest => first.isUpper && rest.all Char.isAlphanum
    | [] => false) && key != "List"

/-- The reference to the schema under a key. -/
def refTo (key : String) : String := "#/components/schemas/" ++ key

namespace TypeExpr

variable {text : List Char}

theorem tokensFrom_of_alphanum (plain : ∀ c ∈ text, c.isAlphanum = true) (gathered : List Char) :
    tokensFrom gathered text = nameToken (text.reverse ++ gathered) := by
  induction text generalizing gathered with
  | nil => simp [tokensFrom]
  | cons c rest ih =>
      have own := plain c (by simp)
      have later := ih (fun other member => plain other (by simp [member])) (c :: gathered)
      have bracket : c ≠ '[' := by
        rintro rfl
        revert own
        decide
      have delimiter : delimiter? c = none := by
        unfold delimiter?
        split <;> first | rfl | (revert own; decide)
      rw [tokensFrom]
      · rw [delimiter, later]
        simp
      · simp [bracket]

theorem tokens_of_alphanum (given : text ≠ []) (plain : ∀ c ∈ text, c.isAlphanum = true) :
    tokens (String.ofList text) = [.name (String.ofList text)] := by
  have solid : ∀ c ∈ text, Text.isBlank c = false :=
    fun c member => Text.isBlank_of_isAlphanum (plain c member)
  rw [tokens, String.toList_ofList, tokensFrom_of_alphanum plain, nameToken]
  simp [Text.trim, Text.trimWhere_of_tight (Text.tight_of_none solid), given]

theorem parse_of_alphanum (given : text ≠ []) (plain : ∀ c ∈ text, c.isAlphanum = true) :
    TypeNode.parse (String.ofList text) = ⟨String.ofList text, [], 0⟩ := by
  have unmarked : ∀ c ∈ text, (c == '.' || c == '/') = false := by
    intro c member
    have own := plain c member
    rw [Bool.or_eq_false_iff, beq_eq_false_iff_ne, beq_eq_false_iff_ne]
    constructor <;> rintro rfl <;> revert own <;> decide
  have package : dropPackage text = text := by
    unfold dropPackage
    rw [if_neg]
    intro marked
    obtain ⟨c, member, mark⟩ := List.any_eq_true.mp marked
    rw [unmarked c (List.takeWhile_subset _ member)] at mark
    cases mark
  rw [TypeNode.parse, tokens_of_alphanum given plain]
  simp [readNode, splitName, cleanName, package, countArrays]

end TypeExpr

theorem Text.replaceAll_marks (depth : Nat) :
    replaceAll ['[', ']'] [] (List.replicate depth ['[', ']']).flatten = [] := by
  induction depth with
  | zero => rfl
  | succ depth ih =>
      rw [List.replicate_succ, List.flatten_cons]
      exact ih

theorem Text.replaceAll_append_marks {text : List Char} (whole : ¬ ['[', ']'] <:+: text)
    (depth : Nat) :
    replaceAll ['[', ']'] [] (text ++ (List.replicate depth ['[', ']']).flatten) = text := by
  induction text with
  | nil => exact replaceAll_marks depth
  | cons c rest ih =>
      have other : ¬ ['[', ']'] <+: c :: (rest ++ (List.replicate depth ['[', ']']).flatten) := by
        intro start
        obtain ⟨rfl, closes⟩ := List.cons_prefix_cons.mp start
        cases rest with
        | nil => cases depth <;> simp [List.replicate_succ] at closes
        | cons second rest =>
            obtain ⟨rfl, -⟩ := List.cons_prefix_cons.mp closes
            exact whole (List.prefix_append ['[', ']'] rest).isInfix
      rw [List.cons_append, replaceAll, replaceFrom,
        if_neg (mt List.isPrefixOf_iff_prefix.mp other)]
      exact congrArg (c :: ·) (ih fun inside => whole (List.infix_cons inside))

theorem replaceText_arraySuffix {base : String} (whole : ¬ ['[', ']'] <:+: base.toList)
    (depth : Nat) : replaceText "[]" "" (base ++ TypeNode.arraySuffix depth) = base := by
  have front := Text.replaceAll_append_marks whole depth
  have parts : (base ++ TypeNode.arraySuffix depth).toList =
      base.toList ++ (List.replicate depth ['[', ']']).flatten := by
    rw [String.toList_append, TypeNode.arraySuffix, String.toList_ofList]
  rw [replaceText, parts]
  exact (congrArg String.ofList front).trans String.ofList_toList

section Keys

variable {key : String}

theorem isPlainKey_spelled (plain : isPlainKey key = true) :
    ∃ first rest, key = String.ofList (first :: rest) ∧ first.isUpper = true ∧
      (∀ c ∈ first :: rest, c.isAlphanum = true) ∧ key ≠ "List" := by
  unfold isPlainKey at plain
  cases spelled : key.toList with
  | nil => simp [spelled] at plain
  | cons first rest =>
      simp only [spelled, Bool.and_eq_true, List.all_eq_true, bne_iff_ne] at plain
      obtain ⟨⟨upper, inside⟩, other⟩ := plain
      refine ⟨first, rest, ?_, upper, ?_, other⟩
      · rw [← spelled, String.ofList_toList]
      · intro c member
        rcases List.mem_cons.mp member with rfl | member
        · exact Text.isAlphanum_of_isUpper upper
        · exact inside c member

theorem hash_not_mem (plain : isPlainKey key = true) : '#' ∉ key.toList := by
  obtain ⟨first, rest, rfl, -, inside, -⟩ := isPlainKey_spelled plain
  rw [String.toList_ofList]
  intro member
  exact absurd (inside _ member) (by decide)

theorem schemaKey_of_plain (plain : isPlainKey key = true) : schemaKey key = key := by
  unfold schemaKey replaceText
  rw [Text.replaceAll_of_absent _ (by decide) (hash_not_mem plain), String.ofList_toList]

theorem schemaKey_refTo (plain : isPlainKey key = true) : schemaKey (refTo key) = key := by
  unfold schemaKey replaceText refTo
  rw [String.toList_append, Text.replaceAll_front (by decide) (hash_not_mem plain)]
  simp

theorem dropArguments_of_absent {text : List Char} (absent : '<' ∉ text) :
    dropArguments text = text := by
  induction text with
  | nil => rfl
  | cons c rest ih =>
      have differs : c ≠ '<' := fun same => absent (by simp [same])
      rw [dropArguments, ih fun member => absent (by simp [member])]
      simp [differs]

theorem fileNameOf_of_plain (plain : isPlainKey key = true) : fileNameOf key = key := by
  obtain ⟨first, rest, rfl, -, inside, -⟩ := isPlainKey_spelled plain
  have bracket : '<' ∉ first :: rest := fun member => absurd (inside _ member) (by decide)
  have mark : '[' ∉ first :: rest := fun member => absurd (inside _ member) (by decide)
  unfold fileNameOf replaceText
  simp only [String.toList_ofList, dropArguments_of_absent bracket]
  rw [Text.replaceAll_of_absent _ (by decide) mark]

theorem parse_of_plain {ref : String} (plain : isPlainKey key = true)
    (leads : schemaKey ref = key) :
    SchemaName.parse [] ref = ⟨key, key⟩ := by
  have file := fileNameOf_of_plain plain
  obtain ⟨first, rest, same, -, inside, other⟩ := isPlainKey_spelled plain
  have parsed := TypeExpr.parse_of_alphanum (by simp) inside
  rw [← same] at parsed
  have shown : (TypeNode.parse key).render (fun name => ((TypeMapping.find? [] name).getD name))
      false = key := by
    rw [parsed]
    simp [TypeNode.render, TypeNode.renderAll, other, TypeNode.arraySuffix]
  simp only [SchemaName.parse, leads, shown, file]

theorem isNameStart_of_isUpper {c : Char} (upper : c.isUpper = true) :
    TypeExpr.isNameStart c = true := by
  have letter := Text.isAlphanum_of_isUpper upper
  have digit := Text.isDigit_of_isUpper upper
  simp [TypeExpr.isNameStart, Text.isWord, Text.isAlphanumeric, Text.isDecimal,
    Text.ascii_of_isAlphanum letter, letter, digit]

theorem isName_of_plain (plain : isPlainKey key = true) : TypeExpr.isName key = true := by
  obtain ⟨first, rest, rfl, upper, inside, -⟩ := isPlainKey_spelled plain
  have fields : ∀ c ∈ rest, Naming.isFieldChar c = true := by
    intro c member
    have own := inside c (by simp [member])
    simp [Naming.isFieldChar, Text.isWord, Text.isAlphanumeric, Text.ascii_of_isAlphanum own,
      own]
  simp only [TypeExpr.isName, String.toList_ofList, isNameStart_of_isUpper upper, Bool.true_and,
    List.all_eq_true]
  exact fields

theorem isModelName_of_plain (plain : isPlainKey key = true) : isModelName key = true := by
  obtain ⟨first, rest, rfl, upper, inside, -⟩ := isPlainKey_spelled plain
  have bound := Text.ascii_of_isAlphanum (inside first (by simp))
  simp [isModelName, startsLower, Text.isLower, bound, Text.isLower_of_isUpper upper]

theorem arguments_of_plain (plain : isPlainKey key = true) :
    Generics.ofTypeName key = {} := by
  obtain ⟨first, rest, rfl, -, inside, -⟩ := isPlainKey_spelled plain
  rw [Generics.ofTypeName, TypeExpr.parse_of_alphanum (by simp) inside]
  rfl

end Keys

end TypedClient

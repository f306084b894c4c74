import TypedClient.Proofs.Naming.Decoded
import TypedClient.Proofs.Interface.Pieces
import TypedClient.Proofs.Schema.Alias

/-!
Keys as arguments of other keys. A key between brackets is read as it is read alone, but for what
follows its first type, and for the names that lose characters inside brackets.
-/

namespace TypedClient

namespace TypeExpr

section Tokens

/-- The name of a token: no bracket, comma or array mark stands in it. -/
structure IsTokenName (name : String) : Prop where
  plain : ∀ c ∈ name.toList, delimiter? c = none
  whole : ¬ ['[', ']'] <:+: name.toList

theorem isTokenName_of_infix {name : String} {text : List Char}
    (plain : ∀ c ∈ text, delimiter? c = none) (whole : ¬ ['[', ']'] <:+: text)
    (inside : name.toList <:+: text) : IsTokenName name :=
  ⟨fun c member => plain c (inside.subset member), fun marks => whole (marks.trans inside)⟩

theorem not_infix_short (rest : List Char) :
    ¬ ['[', ']'] <:+: ([] : List Char).reverse ++ rest.take 1 := by
  intro marks
  have size := marks.length_le
  rw [List.reverse_nil, List.nil_append, List.length_take, List.length_cons,
    List.length_singleton] at size
  omega

theorem isTokenName_of_mem_tokensFrom {gathered rest : List Char} {name : String}
    (plain : ∀ c ∈ gathered, delimiter? c = none)
    (whole : ¬ ['[', ']'] <:+: gathered.reverse ++ rest.take 1)
    (member : .name name ∈ tokensFrom gathered rest) : IsTokenName name := by
  have own {gathered : List Char} (rest : List Char) (plain : ∀ c ∈ gathered, delimiter? c = none)
      (whole : ¬ ['[', ']'] <:+: gathered.reverse ++ rest.take 1)
      (member : .name name ∈ nameToken gathered) : IsTokenName name := by
    unfold nameToken at member
    dsimp only at member
    split at member
    · cases member
    · rw [List.mem_singleton] at member
      cases member
      have plain : ∀ c ∈ gathered.reverse, delimiter? c = none := by simpa using plain
      apply isTokenName_of_infix plain
      · exact fun marks => whole (marks.trans (List.prefix_append _ _).isInfix)
      · rw [String.toList_ofList]
        exact Text.infix_trimWhere _ _
  fun_induction tokensFrom gathered rest with
  | case1 gathered => exact own [] plain whole member
  | case2 gathered rest ih =>
      rcases List.mem_append.mp member with front | later
      · exact own _ plain whole front
      · rcases List.mem_cons.mp later with same | inside
        · cases same
        · exact ih (by simp) (not_infix_short rest) inside
  | case3 gathered c rest other token found ih =>
      rcases List.mem_append.mp member with front | later
      · exact own _ plain whole front
      · rcases List.mem_cons.mp later with rfl | inside
        · exact absurd found delimiter?_ne_name
        · exact ih (by simp) (not_infix_short rest) inside
  | case4 gathered c rest other quiet ih =>
      refine ih (List.forall_mem_cons.mpr ⟨quiet, plain⟩) (fun marks => ?_) member
      rw [List.reverse_cons] at marks
      cases rest with
      | nil => exact whole (by simpa using marks)
      | cons d more =>
          rw [List.take_succ_cons, List.take_zero, List.infix_concat_iff] at marks
          rcases marks with last | inside
          · obtain ⟨front, shape⟩ := last
            have split : (front ++ ['[']) ++ [']'] = (gathered.reverse ++ [c]) ++ [d] := by
              simpa using shape
            obtain ⟨same, closes⟩ := List.append_inj' split rfl
            obtain ⟨-, opens⟩ := List.append_inj' same rfl
            obtain ⟨rfl, -⟩ := List.cons.inj closes
            obtain ⟨rfl, -⟩ := List.cons.inj opens
            exact other more rfl rfl
          · exact whole (by simpa using inside)

theorem isTokenName_of_mem_tokens {text name : String} (member : .name name ∈ tokens text) :
    IsTokenName name :=
  isTokenName_of_mem_tokensFrom (by simp) (not_infix_short _) member

/-- Letters and digits only, or none: inside brackets such a name keeps its characters. -/
def KeptInside (name : String) : Prop :=
  (∀ c ∈ name.toList, c.isAlphanum = true) ∨ ∀ c ∈ name.toList, c.isAlphanum = false

instance (name : String) : Decidable (KeptInside name) :=
  inferInstanceAs (Decidable (_ ∨ _))

theorem cleanName_cases (nested : Bool) (name : String) :
    cleanName nested name = String.ofList (dropPackage name.toList) ∨
      ∀ c ∈ (cleanName nested name).toList, c.isAlphanum = true := by
  unfold cleanName
  dsimp only
  split
  · exact .inl rfl
  · refine .inr fun c member => ?_
    rw [String.toList_ofList] at member
    exact (List.mem_filter.mp member).2

theorem IsTokenName.of_isAlphanum {name : String} (plain : ∀ c ∈ name.toList, c.isAlphanum = true) :
    IsTokenName name := by
  refine ⟨fun c member => ?_, fun marks => ?_⟩
  · exact (quiet_of_isNameChar (isNameChar_of_isAlphanum (plain c member)).1).1
  · exact absurd (plain '[' (marks.subset (by simp))) (by decide)

theorem IsTokenName.clean {name : String} (token : IsTokenName name) (nested : Bool) :
    IsTokenName (cleanName nested name) := by
  rcases cleanName_cases nested name with same | plain
  · rw [same]
    refine isTokenName_of_infix token.plain token.whole ?_
    rw [String.toList_ofList]
    exact (dropPackage_suffix _).isInfix
  · exact .of_isAlphanum plain

theorem keptInside_cleanName (name : String) : KeptInside (cleanName true name) := by
  let short := dropPackage name.toList
  by_cases none : short.filter Char.isAlphanum = []
  · have same : cleanName true name = String.ofList short := by
      simp [cleanName, short, none]
    rw [same]
    refine .inr fun c member => ?_
    rw [String.toList_ofList] at member
    simpa using List.filter_eq_nil_iff.mp none c member
  · have same : cleanName true name = String.ofList (short.filter Char.isAlphanum) := by
      simp [cleanName, short, none]
    rw [same]
    refine .inl fun c member => ?_
    rw [String.toList_ofList] at member
    exact (List.mem_filter.mp member).2

/-- A name that brackets leave alone is cleaned to the same inside and outside of them. -/
theorem cleanName_of_kept {name : String} (kept : KeptInside (cleanName false name)) :
    cleanName true name = cleanName false name := by
  have outside : cleanName false name = String.ofList (dropPackage name.toList) := rfl
  rw [outside] at kept ⊢
  unfold KeptInside at kept
  rw [String.toList_ofList] at kept
  unfold cleanName
  rcases kept with all | none
  · simp [List.filter_eq_self.mpr all]
  · have nothing : (dropPackage name.toList).filter Char.isAlphanum = [] :=
      List.filter_eq_nil_iff.mpr fun c member => by simp [none c member]
    simp [nothing]

end Tokens

section Reading

theorem arrays_append_closing (tokens : List Token) :
    countArrays (tokens ++ [.closing]) = countArrays tokens ∧
      dropArrays (tokens ++ [.closing]) = dropArrays tokens ++ [.closing] := by
  fun_induction countArrays tokens with
  | case1 rest ih => exact ⟨by rw [List.cons_append, countArrays, ih.1], by
      rw [List.cons_append, dropArrays, dropArrays, ih.2]⟩
  | case2 tokens other =>
      cases tokens with
      | nil => exact ⟨rfl, rfl⟩
      | cons token rest =>
          cases token with
          | array => exact absurd rfl (other rest)
          | _ => exact ⟨rfl, rfl⟩

def LeavesClosing (left closed : List Token) : Prop :=
  closed = left ++ [.closing] ∨ left = [] ∧ closed = []

theorem LeavesClosing.arrays {left closed : List Token} (leaves : LeavesClosing left closed) :
    countArrays closed = countArrays left ∧
      LeavesClosing (dropArrays left) (dropArrays closed) := by
  rcases leaves with rfl | ⟨rfl, rfl⟩
  · obtain ⟨count, drop⟩ := arrays_append_closing left
    exact ⟨count, .inl drop⟩
  · exact ⟨rfl, .inr ⟨rfl, rfl⟩⟩

theorem readArgs_opened (text : String) (inner : List Token) :
    (readArgs (.name text :: .opening :: inner)).1 =
        ⟨cleanName true text, (readArgs inner).1, countArrays (readArgs inner).2.1⟩ ::
          (readArgs (dropArrays (readArgs inner).2.1)).1 ∧
      (readArgs (.name text :: .opening :: inner)).2.1 =
        (readArgs (dropArrays (readArgs inner).2.1)).2.1 := by
  rw [readArgs]
  exact ⟨rfl, rfl⟩

theorem readArgs_unnamed (inner : List Token) :
    (readArgs (.opening :: inner)).1 =
        ⟨"", (readArgs inner).1, countArrays (readArgs inner).2.1⟩ ::
          (readArgs (dropArrays (readArgs inner).2.1)).1 ∧
      (readArgs (.opening :: inner)).2.1 = (readArgs (dropArrays (readArgs inner).2.1)).2.1 := by
  rw [readArgs]
  exact ⟨rfl, rfl⟩

/-- Arguments are read alike whether or not a closing bracket ends them. -/
theorem readArgs_append_closing (tokens : List Token) :
    (readArgs (tokens ++ [.closing])).1 = (readArgs tokens).1 ∧
      LeavesClosing (readArgs tokens).2.1 (readArgs (tokens ++ [.closing])).2.1 := by
  have behind {left closed : List Token} (leaves : LeavesClosing left closed)
      (ih : (readArgs (left ++ [.closing])).1 = (readArgs left).1 ∧
        LeavesClosing (readArgs left).2.1 (readArgs (left ++ [.closing])).2.1) :
      (readArgs closed).1 = (readArgs left).1 ∧
        LeavesClosing (readArgs left).2.1 (readArgs closed).2.1 := by
    rcases leaves with rfl | ⟨rfl, rfl⟩
    · exact ih
    · exact ⟨rfl, .inr ⟨by rw [readArgs], by rw [readArgs]⟩⟩
  fun_induction readArgs tokens with
  | case1 =>
      rw [List.nil_append, readArgs]
      exact ⟨rfl, .inr ⟨rfl, rfl⟩⟩
  | case2 rest =>
      rw [List.cons_append, readArgs]
      exact ⟨rfl, .inl rfl⟩
  | case3 inner args rest shorter read ih =>
      rw [List.cons_append, readArgs]
      rw [read] at ih
      exact ih
  | case4 text inner own tail shorter read bound args rest less read' ih ih' =>
      rw [read] at ih
      obtain ⟨count, drops⟩ := ih.2.arrays
      obtain ⟨others, left⟩ := behind drops ih'
      obtain ⟨all, last⟩ := readArgs_opened text (inner ++ [.closing])
      rw [read'] at others left
      rw [List.cons_append, List.cons_append, all, last, ih.1, count, others]
      exact ⟨rfl, left⟩
  | case5 text tail other bound args rest less read ih =>
      obtain ⟨count, drops⟩ :=
        (LeavesClosing.arrays (.inl rfl) : _ ∧ LeavesClosing (dropArrays tail) _)
      obtain ⟨others, left⟩ := behind drops ih
      rw [read] at others left
      rw [List.cons_append, readArgs]
      · rw [count]
        exact ⟨congrArg _ others, left⟩
      · intro inner same
        cases tail with
        | nil => cases same
        | cons token tail =>
            obtain ⟨rfl, -⟩ := List.cons.inj same
            exact other tail rfl
  | case6 inner own tail shorter read bound args rest less read' ih ih' =>
      rw [read] at ih
      obtain ⟨count, drops⟩ := ih.2.arrays
      obtain ⟨others, left⟩ := behind drops ih'
      obtain ⟨all, last⟩ := readArgs_unnamed (inner ++ [.closing])
      rw [read'] at others left
      rw [List.cons_append, all, last, ih.1, count, others]
      exact ⟨rfl, left⟩
  | case7 tail bound args rest less read ih =>
      obtain ⟨count, drops⟩ :=
        (LeavesClosing.arrays (.inl rfl) : _ ∧ LeavesClosing (dropArrays tail) _)
      obtain ⟨others, left⟩ := behind drops ih
      rw [read] at others left
      rw [List.cons_append, readArgs, count]
      exact ⟨congrArg _ others, left⟩

theorem readNode_name (text : String) (rest : List Token) : ∃ args depth behind, ∀ nested,
    readNode nested (.name text :: rest) = (⟨cleanName nested text, args, depth⟩, behind) := by
  cases rest with
  | nil => exact ⟨_, _, _, fun nested => rfl⟩
  | cons token rest => cases token <;> exact ⟨_, _, _, fun nested => rfl⟩

end Reading

end TypeExpr

open TypeExpr

section Texts

theorem fileNameOf_marked {base : String} (token : IsTokenName base) (depth : Nat) :
    fileNameOf (base ++ TypeNode.arraySuffix depth) = base := by
  have marks : WrittenIn (· ≠ '<') (TypeNode.arraySuffix depth) :=
    written_arraySuffix (by simp [WrittenIn]) depth
  have absent : '<' ∉ (base ++ TypeNode.arraySuffix depth).toList := by
    rw [String.toList_append, List.mem_append]
    rintro (own | mark)
    · cases token.plain _ own
    · exact marks _ mark rfl
  rw [fileNameOf, dropArguments_of_absent absent, String.ofList_toList,
    replaceText_arraySuffix token.whole]

theorem args_of_unbracketed {name : String} {args : List TypeNode} {depth : Nat} {nested : Bool}
    (list : name ≠ "List")
    (plain : '<' ∉ ((TypeNode.mk name args depth).render primitiveName nested).toList) :
    args = [] := by
  by_cases two : name = "Map" ∧ args.length = 2
  · obtain ⟨rfl, two⟩ := two
    rw [TypeNode.render_map _ _ _ two] at plain
    exact absurd (by simp) plain
  · have sizes : name = "Map" → args.length ≠ 2 := by simpa using two
    rw [TypeNode.render_other list sizes] at plain
    cases args with
    | nil => rfl
    | cons first rest => exact absurd (by simp) plain

theorem render_leaf {name : String} (list : name ≠ "List") (depth : Nat) (nested : Bool) :
    (TypeNode.mk name [] depth).render primitiveName nested =
      (if nested then primitiveName name else name) ++ TypeNode.arraySuffix depth := by
  rw [TypeNode.render_other list (by simp)]
  simp

theorem TypeNode.Named.render_unbracketed {P : String → Prop} (any : P "any")
    (renamed : ∀ name, P name → P (primitiveName name)) {node : TypeNode} (named : node.Named P)
    (nested : Bool) (plain : '<' ∉ (node.render primitiveName nested).toList) :
    ∃ base depth, node.render primitiveName nested = base ++ arraySuffix depth ∧ P base ∧
      base ≠ "List" := by
  induction named generalizing nested with
  | @node name args depth own inner ih =>
      by_cases list : name = "List"
      · subst list
        rw [render, if_pos (by decide)] at plain ⊢
        cases args with
        | nil => exact ⟨"any", 1 + depth, by rw [arraySuffix_add]; rfl, any, by decide⟩
        | cons first rest =>
            rw [renderAll, List.headD_cons] at plain ⊢
            obtain ⟨base, marks, same, kept⟩ := ih first (by simp) true
              (fun inside => plain (by simp [inside]))
            refine ⟨base, marks + (1 + depth), ?_, kept⟩
            rw [same, arraySuffix_add, arraySuffix_add, ← String.append_assoc,
              ← String.append_assoc]
            rfl
      · obtain rfl := args_of_unbracketed list plain
        refine ⟨if nested then primitiveName name else name, depth, render_leaf list depth nested,
          ?_⟩
        cases nested with
        | true => exact ⟨renamed name own, primitiveName_ne_list list⟩
        | false => exact ⟨own, list⟩

theorem primitiveName_plain (name : String) :
    primitiveName name = name ∨ ∀ c ∈ (primitiveName name).toList, c.isAlphanum = true := by
  have words : ∀ target ∈ ["string", "number", "boolean", "object"],
      target.toList.all Char.isAlphanum = true := by decide
  exact (primitiveName_cases name).imp id fun target => List.all_eq_true.mp (words _ target)

theorem isTokenName_primitive {name : String} (token : IsTokenName name) :
    IsTokenName (primitiveName name) := by
  rcases primitiveName_plain name with same | plain
  · rwa [same]
  · exact .of_isAlphanum plain

theorem keptInside_primitive {name : String} (kept : KeptInside name) :
    KeptInside (primitiveName name) := by
  rcases primitiveName_plain name with same | plain
  · rwa [same]
  · exact .inl plain

theorem lookup_of_isModelName {name : String} (model : isModelName name = true) :
    baseMapping.lookup name = none := by
  have lower : ∀ entry ∈ baseMapping, isModelName entry.1 = false := by decide
  rw [List.lookup_eq_none_iff]
  intro entry member
  rw [bne_iff_ne]
  rintro rfl
  rw [lower entry member] at model
  cases model

theorem primitiveName_of_isModelName {name : String} (model : isModelName name = true) :
    primitiveName name = name := by
  rw [primitiveName, TypeMapping.find?, List.lookup_nil, lookup_of_isModelName model]
  rfl

theorem isModelName_append {name : String} (model : isModelName name = true) (back : String) :
    isModelName (name ++ back) = true := by
  cases shape : name.toList with
  | nil =>
      rw [String.toList_eq_nil_iff] at shape
      subst shape
      cases model
  | cons first rest =>
      simpa [isModelName, startsLower, shape, ← String.toList_eq_nil_iff] using model

variable {name : String} {args : List TypeNode} {depth : Nat}

/-- Inside brackets a type is printed as it is alone if brackets leave its name alone, and only
then. -/
theorem render_argument_iff
    (outer : (TypeNode.mk (cleanName false name) args depth).Named IsTokenName)
    (inner : (TypeNode.mk (cleanName true name) args depth).Named fun name =>
      IsTokenName name ∧ KeptInside name)
    (plain : '<' ∉
      ((TypeNode.mk (cleanName false name) args depth).render primitiveName false).toList)
    (model : isModelName (fileNameOf
      ((TypeNode.mk (cleanName false name) args depth).render primitiveName false)) = true) :
    (TypeNode.mk (cleanName true name) args depth).render primitiveName true =
        (TypeNode.mk (cleanName false name) args depth).render primitiveName false ↔
      KeptInside (fileNameOf
        ((TypeNode.mk (cleanName false name) args depth).render primitiveName false)) := by
  have any : IsTokenName "any" ∧ KeptInside "any" :=
    ⟨.of_isAlphanum (Text.forall_of_all (by decide)), .inl (Text.forall_of_all (by decide))⟩
  constructor
  · intro same
    rw [← same] at plain ⊢
    obtain ⟨base, marks, shape, ⟨token, kept⟩, -⟩ := inner.render_unbracketed any
      (fun _ own => ⟨isTokenName_primitive own.1, keptInside_primitive own.2⟩) true plain
    rwa [shape, fileNameOf_marked token]
  · intro kept
    by_cases list : cleanName false name = "List"
    · have inside : cleanName true name = "List" := by
        rw [cleanName_of_kept, list]
        rw [list]
        exact .inl (Text.forall_of_all (by decide))
      rw [inside, list, TypeNode.render, TypeNode.render]
      simp
    · obtain rfl := args_of_unbracketed list plain
      obtain ⟨token, -⟩ := outer
      rw [render_leaf list, if_neg Bool.false_ne_true, fileNameOf_marked token] at model kept
      have inside := cleanName_of_kept kept
      rw [inside, render_leaf list, render_leaf list, if_pos rfl,
        primitiveName_of_isModelName model]
      rfl

end Texts

section Keys

variable {schemas : Schemas} {container key : String}

/-- Between brackets the key is read as one argument, without array marks behind what closes it. -/
def IsArgument (key : String) : Prop :=
  (readArgs (tokens (schemaKey key))).1.length = 1 ∧
    countArrays (readArgs (tokens (schemaKey key))).2.1 = 0

theorem isArgument_of_spells {node : TypeNode} (spelled : Spells node key.toList)
    (bare : node.Bare) : IsArgument key := by
  obtain ⟨name, rest, lexes, reads⟩ := (spelled.dropPath bare).reads bare
  have read : tokens (schemaKey key) = .name name :: rest := by
    have lexed := lexes [] .nil
    rw [List.append_nil] at lexed
    rw [schemaKey_eq, tokens, String.toList_ofList, lexed]
    simp [tokensFrom, nameToken_nil]
  have alone := reads true [] trivial
  rw [List.append_nil] at alone
  obtain ⟨args, behind⟩ := readArgs_name name rest
  rw [alone] at args behind
  rw [IsArgument, read, args, behind, readArgs]
  exact ⟨rfl, rfl⟩

theorem schemaKey_between (absent : '/' ∉ container.toList) (key : String) :
    schemaKey (container ++ "«" ++ key ++ "»") = container ++ "«" ++ schemaKey key ++ "»" := by
  have opening : '«' ∉ schemaPath := by decide
  have closing : '»' ∉ schemaPath := by decide
  have whole : (container ++ "«" ++ key ++ "»").toList =
      container.toList ++ '«' :: (key.toList ++ '»' :: []) := by simp
  rw [schemaKey_eq, whole, dropPath_append_cons opening, dropPath_append_cons closing,
    dropPath_of_no_slash absent, schemaKey_eq]
  apply String.toList_inj.mp
  simp [dropPath, Text.replaceAll, Text.replaceFrom]

theorem parse_between (named : IsSettledName false container) (key : String) :
    TypeNode.parse (schemaKey (container ++ "«" ++ key ++ "»")) =
      ⟨container, (readArgs (tokens (schemaKey key))).1,
        countArrays (readArgs (tokens (schemaKey key))).2.1⟩ := by
  have absent : '/' ∉ container.toList := fun member => (named.plain _ member).2.2 rfl
  obtain ⟨text, lexes, clean⟩ := @lexes_name container [] [] [] ⟨by simp, .inl rfl⟩ named.bare
    (by simp) (by simp)
  have read : tokens (container ++ "«" ++ schemaKey key ++ "»") =
      .name text :: .opening :: (tokens (schemaKey key) ++ [.closing]) := by
    have whole : (container ++ "«" ++ schemaKey key ++ "»").toList =
        container.toList ++ '«' :: ((schemaKey key).toList ++ '»' :: []) := by simp
    have front := lexes ('«' :: ((schemaKey key).toList ++ '»' :: [])) (.delimiter rfl)
    rw [List.nil_append, List.nil_append, List.append_nil] at front
    rw [tokens, whole, front, tokensFrom_delimiter rfl, nameToken_nil,
      tokensFrom_append_delimiter rfl, tokensFrom, nameToken_nil]
    rfl
  obtain ⟨args, left⟩ := readArgs_append_closing (tokens (schemaKey key))
  rw [schemaKey_between absent, TypeNode.parse, read, readNode, splitName]
  dsimp only
  rw [args, left.arrays.1, clean false, shortName_of_settled named]

theorem isTokenName_empty : IsTokenName "" :=
  .of_isAlphanum (by simp)

theorem model_tokens (model : isModelName (SchemaName.parse [] key).fileName = true)
    (plain : '<' ∉ (SchemaName.parse [] key).typeName.toList) :
    ∃ text rest, tokens (schemaKey key) = .name text :: rest := by
  by_contra unnamed
  obtain ⟨args, depth, read⟩ :
      ∃ args depth, TypeNode.parse (schemaKey key) = ⟨"", args, depth⟩ := by
    rw [TypeNode.parse]
    cases shape : tokens (schemaKey key) with
    | nil => exact ⟨_, _, rfl⟩
    | cons token rest =>
        cases token with
        | name text => exact absurd ⟨text, rest, shape⟩ unnamed
        | _ => exact ⟨_, _, rfl⟩
  have name : (SchemaName.parse [] key).typeName =
      (TypeNode.mk "" args depth).render primitiveName false := by
    rw [← read]
    rfl
  have file : (SchemaName.parse [] key).fileName = fileNameOf (SchemaName.parse [] key).typeName :=
    rfl
  rw [name] at plain file
  obtain rfl := args_of_unbracketed (by decide) plain
  rw [file, render_leaf (by decide), if_neg Bool.false_ne_true,
    fileNameOf_marked isTokenName_empty] at model
  cases model

/-- What the key of a model without brackets is read as: the first argument differs from the type
that is read alone in its name only. -/
theorem model_read (model : isModelName (SchemaName.parse [] key).fileName = true)
    (plain : '<' ∉ (SchemaName.parse [] key).typeName.toList) : ∃ text args depth more,
      (SchemaName.parse [] key).typeName =
        (TypeNode.mk (cleanName false text) args depth).render primitiveName false ∧
      (readArgs (tokens (schemaKey key))).1 = ⟨cleanName true text, args, depth⟩ :: more ∧
      (TypeNode.mk (cleanName false text) args depth).Named IsTokenName ∧
      (TypeNode.mk (cleanName true text) args depth).Named fun name =>
        IsTokenName name ∧ KeptInside name := by
  obtain ⟨text, rest, shape⟩ := model_tokens model plain
  obtain ⟨args, depth, behind, read⟩ := readNode_name text rest
  have token (text : String) (member : .name text ∈ tokens (schemaKey key)) (nested : Bool) :
      IsTokenName (cleanName nested text) :=
    (isTokenName_of_mem_tokens member).clean nested
  rw [shape] at token
  have outer := named_readNode isTokenName_empty (fun text member => token text member false)
    fun text member => token text member true
  have inner := @named_readNode (fun name => IsTokenName name ∧ KeptInside name)
    ⟨isTokenName_empty, .inl (by simp)⟩ true _
    (fun text member => ⟨token text member true, keptInside_cleanName text⟩)
    fun text member => ⟨token text member true, keptInside_cleanName text⟩
  rw [read] at outer inner
  refine ⟨text, args, depth, (readArgs (readNode true (.name text :: rest)).2).1, ?_, ?_, outer,
    inner⟩
  · show (TypeNode.parse (schemaKey key)).render primitiveName false = _
    rw [TypeNode.parse, shape, read]
  · rw [shape, (readArgs_name text rest).1, read]

theorem IsModelKey.named (model : IsModelKey schemas key) :
    isModelName (SchemaName.parse [] key).fileName = true := by
  obtain ⟨schema, -, -, judged⟩ := model
  by_contra other
  rw [isModel, if_neg other] at judged
  cases judged

theorem schemaKey_refTo_eq (key : String) : schemaKey (refTo key) = schemaKey key := by
  have given : schemaPath ≠ [] := by decide
  have whole : (refTo key).toList = schemaPath ++ key.toList := by
    unfold refTo schemaPath
    exact String.toList_append
  rw [schemaKey_eq, schemaKey_eq, whole, dropPath, Text.replaceAll_own given, List.nil_append]
  rfl

theorem arraySuffix_eq_nil {depth : Nat} {front back : List Char}
    (ends : front ++ '>' :: (TypeNode.arraySuffix depth).toList = back ++ ['>']) : depth = 0 := by
  cases depth with
  | zero => rfl
  | succ depth =>
      have whole : front ++ '>' :: (TypeNode.arraySuffix (depth + 1)).toList =
          (front ++ '>' :: (TypeNode.arraySuffix depth).toList ++ ['[']) ++ [']'] := by
        simp [arraySuffix_succ]
      rw [whole] at ends
      cases (List.append_inj' ends rfl).2

/-- The text with arguments between brackets is the one with a single text between them if that is
what the only argument is printed as, and only then. -/
theorem render_single_iff {args : List TypeNode} {depth : Nat} {text : String}
    (given : args ≠ []) (other : container ≠ "List") (solid : ',' ∉ text.toList) :
    (TypeNode.mk container args depth).render primitiveName false =
        container ++ "<" ++ text ++ ">" ↔
      (args.length = 1 ∧ depth = 0) ∧ ∀ arg ∈ args.head?, arg.render primitiveName true = text := by
  obtain ⟨first, rest, rfl⟩ := List.exists_cons_of_ne_nil given
  by_cases two : container = "Map" ∧ (first :: rest).length = 2
  · obtain ⟨rfl, two⟩ := two
    rw [TypeNode.render_map _ _ _ two]
    refine iff_of_false (fun same => ?_) fun both => ?_
    · have start := congrArg (fun text => text.toList.head?) same
      simp at start
    · rw [both.1.1] at two
      cases two
  · have sizes : container = "Map" → (first :: rest).length ≠ 2 := by simpa using two
    rw [TypeNode.render_other other sizes]
    constructor
    · intro same
      have chars (joined marks : String) (same : container ++ ("<" ++ joined ++ ">") ++ marks =
          container ++ "<" ++ text ++ ">") :
          joined.toList ++ '>' :: marks.toList = text.toList ++ ['>'] := by
        simpa using congrArg String.toList same
      have ends := chars _ _ same
      obtain rfl := arraySuffix_eq_nil ends
      have joined := List.append_cancel_right (ends : _ ++ ['>'] = _)
      rw [TypeNode.renderAll, toList_joined] at joined
      cases rest with
      | cons second rest =>
          refine absurd ?_ solid
          rw [← joined]
          simp [TypeNode.renderAll]
      | nil =>
          refine ⟨⟨rfl, rfl⟩, fun arg head => ?_⟩
          cases head
          apply String.toList_inj.mp
          simpa [TypeNode.renderAll] using joined
    · rintro ⟨⟨single, rfl⟩, own⟩
      obtain rfl : rest = [] := by simpa using single
      have text := own first (by simp)
      simp [TypeNode.renderAll, text, TypeNode.arraySuffix, String.append_assoc]

theorem model_name (model : isModelName (SchemaName.parse [] key).fileName = true)
    (plain : '<' ∉ (SchemaName.parse [] key).typeName.toList) :
    (∃ depth, (SchemaName.parse [] key).typeName =
      (SchemaName.parse [] key).fileName ++ TypeNode.arraySuffix depth) ∧
      IsTokenName (SchemaName.parse [] key).fileName ∧
      (SchemaName.parse [] key).fileName ≠ "List" := by
  obtain ⟨text, args, depth, more, name, -, outer, -⟩ := model_read model plain
  rw [name] at plain
  have any : IsTokenName "any" := .of_isAlphanum (Text.forall_of_all (by decide))
  obtain ⟨base, marks, shape, token, list⟩ := outer.render_unbracketed any
    (fun _ own => isTokenName_primitive own) false plain
  have file : (SchemaName.parse [] key).fileName = base := by
    rw [← fileNameOf_marked token marks, ← shape, ← name]
    rfl
  rw [file, name]
  exact ⟨⟨marks, shape⟩, token, list⟩

/-- The text between the brackets is the name of the model if the model is read as one argument and
brackets leave its name alone, and only then. -/
theorem typeName_between_iff (model : isModelName (SchemaName.parse [] key).fileName = true)
    (plain : '<' ∉ (SchemaName.parse [] key).typeName.toList)
    (named : IsSettledName false container) (other : container ≠ "List") :
    (SchemaName.parse [] (container ++ "«" ++ key ++ "»")).typeName =
        container ++ "<" ++ (SchemaName.parse [] key).typeName ++ ">" ↔
      IsArgument key ∧ KeptInside (SchemaName.parse [] key).fileName := by
  obtain ⟨text, args, depth, more, name, read, outer, inner⟩ := model_read model plain
  have file : (SchemaName.parse [] key).fileName = fileNameOf (SchemaName.parse [] key).typeName :=
    rfl
  have shown : (SchemaName.parse [] (container ++ "«" ++ key ++ "»")).typeName =
      (TypeNode.mk container (readArgs (tokens (schemaKey key))).1
        (countArrays (readArgs (tokens (schemaKey key))).2.1)).render primitiveName false := by
    rw [← parse_between named key]
    rfl
  have solid : ',' ∉ (SchemaName.parse [] key).typeName.toList := by
    obtain ⟨⟨marks, shape⟩, token, -⟩ := model_name model plain
    have printed : WrittenIn (· ≠ ',') (TypeNode.arraySuffix marks) :=
      written_arraySuffix (by simp [WrittenIn]) marks
    rw [shape, String.toList_append, List.mem_append]
    rintro (own | mark)
    · cases token.plain _ own
    · exact printed _ mark rfl
  have given : (readArgs (tokens (schemaKey key))).1 ≠ [] := by
    rw [read]
    simp
  rw [file] at model
  rw [shown, render_single_iff given other solid, IsArgument, read, List.head?_cons, file]
  rw [name] at model plain ⊢
  have same := render_argument_iff outer inner plain model
  simp only [Option.mem_some_iff, forall_eq', same]

theorem typeOfRef_refTo (model : IsModelKey schemas key)
    (plain : '<' ∉ (SchemaName.parse [] key).typeName.toList) (direct : schemaKey key = key) :
    typeOfRef ⟨[], schemas⟩ schemas (refTo key) =
      .ok ⟨.plain (SchemaName.parse [] key).typeName, [refTo key],
        [(SchemaName.parse [] key).fileName]⟩ := by
  have leads : schemaKey (refTo key) = key := (schemaKey_refTo_eq key).trans direct
  have decoded : SchemaName.parse [] (refTo key) = SchemaName.parse [] key := by
    rw [SchemaName.parse, SchemaName.parse, leads, direct]
  have absent : baseMapping.lookup (SchemaName.parse [] (refTo key)).typeName = none := by
    obtain ⟨⟨depth, shape⟩, -⟩ := model_name model.named plain
    rw [decoded, shape]
    exact lookup_of_isModelName (isModelName_append model.named _)
  obtain ⟨schema, found, own, judged⟩ := model
  rw [← leads] at found judged
  rw [typeOfRef_model List.lookup_nil (not_isPrimitiveRef_of_lookup absent) found own judged,
    Typed.named, decoded]

theorem arguments_between {name : String} {depth : Nat} (named : IsSettledName false container)
    (other : container ≠ "List") (settled : IsSettledName true name) (list : name ≠ "List") :
    (Generics.ofTypeName
        (container ++ "<" ++ (name ++ TypeNode.arraySuffix depth) ++ ">")).arguments =
      [name ++ TypeNode.arraySuffix depth] := by
  let argument : TypeNode := ⟨name, [], depth⟩
  have plain : argument.printsAsIs = true := by
    simp [argument, TypeNode.printsAsIs, TypeNode.allPrintAsIs, list]
  have own : argument.toText = name ++ TypeNode.arraySuffix depth := by
    rw [toText_eq plain]
    simp
  have asIs : (TypeNode.mk container [argument] 0).printsAsIs = true := by
    simp [TypeNode.printsAsIs, TypeNode.allPrintAsIs, plain, other]
  have whole : (TypeNode.mk container [argument] 0).toText =
      container ++ "<" ++ (name ++ TypeNode.arraySuffix depth) ++ ">" := by
    rw [toText_eq asIs, TypeNode.renderAll, render_id, own]
    simp [TypeNode.renderAll, TypeNode.arraySuffix, String.append_assoc]
  have outer : (TypeNode.mk container [argument] 0).Settled false :=
    ⟨named, ⟨settled, trivial⟩, trivial⟩
  have read := parse_toText outer asIs
  rw [whole] at read
  rw [Generics.ofTypeName, read, ← own]
  rfl

/-- Between the brackets of another key a model whose name holds no brackets has the name of its
interface, the one that references to it have, if its key is read as one argument there and its
file name consists of ASCII letters and digits or holds none, and only then. The argument that is
read back from the type is then the type of these references. -/
theorem argument_names_model (model : IsModelKey schemas key)
    (plain : '<' ∉ (SchemaName.parse [] key).typeName.toList)
    (named : IsSettledName false container) (other : container ≠ "List") :
    ((SchemaName.parse [] (container ++ "«" ++ key ++ "»")).typeName =
        container ++ "<" ++ (SchemaName.parse [] key).typeName ++ ">" ↔
      IsArgument key ∧ KeptInside (SchemaName.parse [] key).fileName) ∧
    (∃ depth, (SchemaName.parse [] key).typeName =
      (SchemaName.parse [] key).fileName ++ TypeNode.arraySuffix depth) ∧
    (schemaKey key = key →
      typeOfRef ⟨[], schemas⟩ schemas (refTo key) =
        .ok ⟨.plain (SchemaName.parse [] key).typeName, [refTo key],
          [(SchemaName.parse [] key).fileName]⟩ ∧
      ∀ (context : FieldContext) schema code, context.mapping = [] →
        modelCode context key schema = .ok code →
        code.typeName = (SchemaName.parse [] key).typeName ∧
          code.fileName = (SchemaName.parse [] key).fileName) ∧
    (IsSettledName true (SchemaName.parse [] key).fileName →
      (Generics.ofTypeName
          (container ++ "<" ++ (SchemaName.parse [] key).typeName ++ ">")).arguments =
        [(SchemaName.parse [] key).typeName]) := by
  obtain ⟨⟨depth, shape⟩, -, list⟩ := model_name model.named plain
  refine ⟨typeName_between_iff model.named plain named other, ⟨depth, shape⟩,
    fun direct => ⟨?_, ?_⟩,
    fun settled => ?_⟩
  · exact typeOfRef_refTo model plain direct
  · intro context schema code unmapped made
    rw [modelCode_eq] at made
    simp only [bind_eq_ok, pure_eq_ok] at made
    obtain ⟨flat, -, pieces, -, same⟩ := made
    obtain ⟨name, file⟩ := ModelCode.names_ofPieces context key flat pieces
    rw [unmapped, direct] at name file
    rw [← same]
    exact ⟨name, file⟩
  · rw [shape]
    exact arguments_between named other settled list

end Keys

section Models

/-- A schema with one property. -/
def identified : Value := .record [("properties", .record [("id", .record [])])]

theorem isModelKey_identified {key : String}
    (named : isModelName (SchemaName.parse [] key).fileName = true) :
    IsModelKey [(key, identified)] key := by
  refine ⟨identified, by simp [Schemas.find?], rfl, ?_⟩
  exact isModel_of_single named rfl

theorem spells_name (name : String) (package : List Char) (packaged : IsPackage package) :
    Spells ⟨name, [], 0⟩ (package ++ name.toList) := by
  have whole : Spells ⟨name, [], 0⟩ ([] ++ package ++ name.toList ++ [] ++ ([] ++ [])) :=
    .node [] package [] (by simp) packaged (by simp) .none .zero
  simpa using whole

theorem argument_names_model_user :
    IsModelKey [("com.x.User", identified)] "com.x.User" ∧
      (SchemaName.parse [] "com.x.User").typeName = "User" ∧
      (SchemaName.parse [] "Page«com.x.User»").typeName = "Page<User>" := by
  have spelled : Spells ⟨"User", [], 0⟩ "com.x.User".toList :=
    spells_name "User" "com.x.".toList ⟨List.all_eq_true.mp rfl, .inr rfl⟩
  have bare : (TypeNode.mk "User" [] 0).Bare := ⟨.of_check (by decide), trivial⟩
  have name : (SchemaName.parse [] "com.x.User").typeName = "User" := by
    rw [typeName_of_spells spelled bare]
    decide
  have file : (SchemaName.parse [] "com.x.User").fileName = "User" := by
    show fileNameOf (SchemaName.parse [] "com.x.User").typeName = "User"
    rw [name]
    decide
  have model : IsModelKey [("com.x.User", identified)] "com.x.User" :=
    isModelKey_identified (by rw [file]; decide)
  have kept : KeptInside (SchemaName.parse [] "com.x.User").fileName := by
    rw [file]
    exact .inl (Text.forall_of_all (by decide))
  have page : IsSettledName false "Page" :=
    .of_isAlphanum (by decide) (Text.forall_of_all (by decide)) false
  have shown := (argument_names_model model (by rw [name]; decide) page (by decide)).1.mpr
    ⟨isArgument_of_spells spelled bare, kept⟩
  rw [name] at shown
  exact ⟨model, name, shown⟩

theorem parse_listed {text first second : String}
    (read : tokens (schemaKey text) = [.name first, .comma, .name second]) :
    TypeNode.parse (schemaKey text) = ⟨cleanName false first, [], 0⟩ ∧
      (readArgs (tokens (schemaKey text))).1 =
        [⟨cleanName true first, [], 0⟩, ⟨cleanName true second, [], 0⟩] ∧
      countArrays (readArgs (tokens (schemaKey text))).2.1 = 0 := by
  rw [TypeNode.parse, read]
  simp [readNode, splitName, readArgs, countArrays, dropArrays]

/-- Brackets take the underscore off one name, and read two arguments for the other key. -/
theorem argument_names_differ :
    IsModelKey [("User_Info", identified)] "User_Info" ∧
      (SchemaName.parse [] "User_Info").typeName = "User_Info" ∧
      (SchemaName.parse [] "Response«User_Info»").typeName = "Response<UserInfo>" ∧
      "Response<UserInfo>" ≠
        "Response" ++ "<" ++ (SchemaName.parse [] "User_Info").typeName ++ ">" ∧
      IsModelKey [("User,Other", identified)] "User,Other" ∧
      (SchemaName.parse [] "User,Other").typeName = "User" ∧
      (SchemaName.parse [] "Response«User,Other»").typeName = "Response<User, Other>" := by
  have alone : Spells ⟨"User_Info", [], 0⟩ "User_Info".toList :=
    spells_name "User_Info" [] ⟨by simp, .inl rfl⟩
  have inside : Spells ⟨"Response", [⟨"User_Info", [], 0⟩], 0⟩ "Response«User_Info»".toList :=
    .node [] [] [] (by simp) ⟨by simp, .inl rfl⟩ (by simp)
      (.some '«' '»' [] (by decide) alone .nil (by simp)) .zero
  have bare : (TypeNode.mk "User_Info" [] 0).Bare := ⟨.of_check (by decide), trivial⟩
  have outer : (TypeNode.mk "Response" [] 0).Bare := ⟨.of_check (by decide), trivial⟩
  have name : (SchemaName.parse [] "User_Info").typeName = "User_Info" := by
    rw [typeName_of_spells alone bare]
    decide
  have first : (SchemaName.parse [] "User_Info").fileName = "User_Info" := by
    show fileNameOf (SchemaName.parse [] "User_Info").typeName = "User_Info"
    rw [name]
    decide
  have shortened : (SchemaName.parse [] "Response«User_Info»").typeName = "Response<UserInfo>" := by
    rw [typeName_of_spells inside ⟨outer.1, bare, trivial⟩]
    decide
  have listed : tokens (schemaKey "User,Other") = [.name "User", .comma, .name "Other"] := by decide
  obtain ⟨read, args, marks⟩ := parse_listed listed
  have named : (SchemaName.parse [] "User,Other").typeName = "User" := by
    show (TypeNode.parse (schemaKey "User,Other")).render primitiveName false = "User"
    rw [read]
    decide
  have second : (SchemaName.parse [] "User,Other").fileName = "User" := by
    show fileNameOf (SchemaName.parse [] "User,Other").typeName = "User"
    rw [named]
    decide
  have response : IsSettledName false "Response" :=
    .of_isAlphanum (by decide) (Text.forall_of_all (by decide)) false
  have two : (SchemaName.parse [] "Response«User,Other»").typeName = "Response<User, Other>" := by
    have tree := parse_between response "User,Other"
    rw [args, marks] at tree
    show (TypeNode.parse (schemaKey ("Response" ++ "«" ++ "User,Other" ++ "»"))).render
      primitiveName false = "Response<User, Other>"
    rw [tree]
    decide
  exact ⟨isModelKey_identified (by rw [first]; decide), name, shortened, by rw [name]; decide,
    isModelKey_identified (by rw [second]; decide), named, two⟩

end Models

end TypedClient

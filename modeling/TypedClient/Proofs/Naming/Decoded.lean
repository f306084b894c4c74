import TypedClient.Proofs.Naming.SchemaKey
import TypedClient.Proofs.Naming.Solid

/-!
The tree that a decoded name is read as: arrays for lists, records for maps, and the names that
primitives stand for. Decoding changes nothing in it any more.
-/

namespace TypedClient

namespace TypeExpr

section Path

def schemaPath : List Char := "#/components/schemas/".toList

def dropPath (text : List Char) : List Char := Text.replaceAll schemaPath [] text

theorem schemaKey_eq (ref : String) : schemaKey ref = String.ofList (dropPath ref.toList) :=
  rfl

variable {front back text : List Char}

theorem dropPath_append_cons {c : Char} (absent : c ∉ schemaPath) (front back : List Char) :
    dropPath (front ++ c :: back) = dropPath front ++ c :: dropPath back :=
  Text.replaceAll_append_cons (by decide) absent front back

theorem dropPath_cons {c : Char} (absent : c ∉ schemaPath) (back : List Char) :
    dropPath (c :: back) = c :: dropPath back :=
  dropPath_append_cons absent [] back

theorem dropPath_append (apart : ∀ c ∈ back.head?, c ∉ schemaPath) :
    dropPath (front ++ back) = dropPath front ++ dropPath back := by
  cases back with
  | nil => rw [List.append_nil, show dropPath [] = [] from rfl, List.append_nil]
  | cons c back =>
      have absent := apart c (by simp)
      rw [dropPath_append_cons absent, dropPath_cons absent]

theorem dropPath_of_no_slash (absent : '/' ∉ text) : dropPath text = text :=
  Text.replaceAll_untouched [] fun inside => absent (inside.subset (by decide))

theorem not_mem_of_isBlank {c : Char} (all : ∀ c ∈ text, Text.isBlank c = true)
    (solid : Text.isBlank c = false) : c ∉ text := by
  intro member
  rw [all c member] at solid
  cases solid

theorem dropPath_package {package : List Char} (packaged : IsPackage package)
    (before : ∀ c ∈ front, Text.isBlank c = true) (absent : '/' ∉ text) :
    IsPackage (dropPath package) ∧
      dropPath (front ++ package ++ text) = front ++ dropPath package ++ text := by
  have blank : '/' ∉ front := not_mem_of_isBlank before (by decide)
  rcases packaged.ended with rfl | ended
  · refine ⟨packaged, ?_⟩
    rw [List.append_nil, dropPath_of_no_slash (by simp [blank, absent]),
      show dropPath [] = [] from rfl, List.append_nil]
  · obtain ⟨start, rfl⟩ := List.getLast?_eq_some_iff.mp ended
    have point : '.' ∉ schemaPath := by decide
    have short : dropPath (start ++ ['.']) = dropPath start ++ ['.'] :=
      dropPath_append_cons point start []
    have hash : '#' ∉ front := not_mem_of_isBlank before (by decide)
    have behind : dropPath (front ++ start) = front ++ dropPath start :=
      Text.replaceAll_append rfl hash
    constructor
    · rw [short]
      refine ⟨fun c member => packaged.plain c ?_, .inr (by simp)⟩
      have kept := (Text.replaceFrom_sublist schemaPath 0 start).subset
      rcases List.mem_append.mp member with own | point
      · exact List.mem_append.mpr (.inl (kept own))
      · exact List.mem_append.mpr (.inr point)
    · have whole : front ++ (start ++ ['.']) ++ text = (front ++ start) ++ '.' :: text := by simp
      rw [whole, dropPath_append_cons point, behind, dropPath_of_no_slash absent, short]
      simp

theorem SpellsMarks.head_dropPath {depth : Nat} {marks : List Char}
    (spelled : SpellsMarks depth marks) :
    (∀ c ∈ marks.head?, c ∉ schemaPath) ∧ dropPath marks = marks := by
  have absent : '/' ∉ marks := by
    induction spelled with
    | zero => simp
    | succ back blank others ih =>
        have apart : '/' ∉ back := not_mem_of_isBlank blank (by decide)
        simp [apart, ih]
  refine ⟨?_, dropPath_of_no_slash absent⟩
  cases spelled with
  | zero => simp
  | succ back blank others =>
      have bracket : '[' ∉ schemaPath := by decide
      simpa using bracket

theorem brackets_apart {opening closing : Char} (pair : (opening, closing) ∈ brackets) :
    opening ∉ schemaPath ∧ closing ∉ schemaPath := by
  have apart : ∀ pair ∈ brackets, pair.1 ∉ schemaPath ∧ pair.2 ∉ schemaPath := by decide
  exact apart _ pair

theorem SpellsArguments.head {args : List TypeNode} (spelled : SpellsArguments args text) :
    ∀ c ∈ text.head?, c ∉ schemaPath := by
  cases spelled with
  | none => simp
  | some opening closing back pair first others blank =>
      simpa using (brackets_apart pair).1

theorem SpellsRest.head {args : List TypeNode} (spelled : SpellsRest args text) :
    ∀ c ∈ text.head?, c ∉ schemaPath := by
  have comma : ',' ∉ schemaPath := by decide
  cases spelled with
  | nil => simp
  | cons first others => simpa using comma

mutual

theorem Spells.dropPath {node : TypeNode} {text : List Char} (spelled : Spells node text)
    (bare : node.Bare) : Spells node (dropPath text) := by
  match spelled, bare with
  | .node front package back before packaged behind inner outer, ⟨named, args⟩ =>
      rename_i name _ depth arguments marks
      obtain ⟨apart, same⟩ := outer.head_dropPath
      have word : '/' ∉ name.toList ++ back := by
        have own : '/' ∉ name.toList := fun member => (named.plain _ member).2.2 rfl
        have blank : '/' ∉ back := not_mem_of_isBlank behind (by decide)
        simp [own, blank]
      obtain ⟨short, front⟩ := dropPath_package packaged before word
      have later : ∀ c ∈ (arguments ++ marks).head?, c ∉ schemaPath := by
        intro c head
        rw [List.head?_append] at head
        cases shape : arguments.head? with
        | none =>
            rw [shape] at head
            exact apart c head
        | some first =>
            rw [shape] at head
            exact inner.head c (by simpa [shape] using head)
      have parts := inner.dropPath args
      rw [dropPath_append later, List.append_assoc _ name.toList, front, dropPath_append apart,
        same,
        ← List.append_assoc _ name.toList]
      exact .node _ _ _ before short behind parts outer

theorem SpellsArguments.dropPath {args : List TypeNode} {text : List Char}
    (spelled : SpellsArguments args text) (bare : TypeNode.AllBare args) :
    SpellsArguments args (dropPath text) := by
  match spelled, bare with
  | .none, _ => exact .none
  | .some opening closing back pair first others blank, ⟨own, rest⟩ =>
      obtain ⟨start, finish⟩ := brackets_apart pair
      have stays : TypeExpr.dropPath back = back :=
        dropPath_of_no_slash (not_mem_of_isBlank blank (by decide))
      rw [List.cons_append, dropPath_cons start, dropPath_append_cons finish,
        dropPath_append others.head, stays]
      exact .some opening closing back pair (first.dropPath own) (others.dropPath rest) blank

theorem SpellsRest.dropPath {args : List TypeNode} {text : List Char}
    (spelled : SpellsRest args text) (bare : TypeNode.AllBare args) :
    SpellsRest args (dropPath text) := by
  match spelled, bare with
  | .nil, _ => exact .nil
  | .cons first others, ⟨own, rest⟩ =>
      rw [dropPath_cons (by decide), dropPath_append others.head]
      exact .cons (first.dropPath own) (others.dropPath rest)

end

theorem parse_schemaKey {node : TypeNode} {key : String} (spelled : Spells node key.toList)
    (bare : node.Bare) : TypeNode.parse (schemaKey key) = node.shortened false := by
  rw [schemaKey_eq]
  exact parse_of_bare (spelled.dropPath bare) bare

end Path

theorem settled_shortName {name : String} (bare : IsBareName name) (nested : Bool) :
    IsSettledName nested (shortName nested name) := by
  cases nested with
  | false => exact ⟨bare.given, bare.tight, bare.plain, by simp⟩
  | true =>
      by_cases none : name.toList.filter Char.isAlphanum = []
      · have same : shortName true name = name := by simp [shortName, none]
        rw [same]
        refine ⟨bare.given, bare.tight, bare.plain, fun _ => .inr fun c member => ?_⟩
        simpa using List.filter_eq_nil_iff.mp none c member
      · have same : shortName true name = String.ofList (name.toList.filter Char.isAlphanum) := by
          simp [shortName, none]
        rw [same]
        refine .of_isAlphanum (by simpa using none) (fun c member => ?_) true
        rw [String.toList_ofList] at member
        exact (List.mem_filter.mp member).2

end TypeExpr

def primitiveName (name : String) : String := (TypeMapping.find? [] name).getD name

theorem primitiveName_cases (name : String) :
    primitiveName name = name ∨ primitiveName name ∈ ["string", "number", "boolean", "object"] := by
  have targets : ∀ entry ∈ baseMapping, entry.2 ∈ ["string", "number", "boolean", "object"] := by
    decide
  unfold primitiveName TypeMapping.find?
  rw [List.lookup_nil, Option.none_or]
  cases found : baseMapping.lookup name with
  | none => exact .inl rfl
  | some target => exact .inr (targets _ (mem_of_lookup found))

theorem primitiveName_idem (name : String) :
    primitiveName (primitiveName name) = primitiveName name := by
  have fixed : ∀ target ∈ ["string", "number", "boolean", "object"],
      primitiveName target = target := by decide
  rcases primitiveName_cases name with same | target
  · rw [same, same]
  · exact fixed _ target

theorem primitiveName_ne_list {name : String} (apart : name ≠ "List") :
    primitiveName name ≠ "List" := by
  have others : ∀ target ∈ ["string", "number", "boolean", "object"], target ≠ "List" := by decide
  rcases primitiveName_cases name with same | target
  · rwa [same]
  · exact others _ target

namespace TypeNode

open TypeExpr

mutual

theorem settled_shortened {node : TypeNode} (bare : node.Bare) (nested : Bool) :
    (node.shortened nested).Settled nested := by
  match node, bare with
  | ⟨_, _, _⟩, ⟨named, args⟩ => exact ⟨settled_shortName named nested, allSettled_shortened args⟩

theorem allSettled_shortened {nodes : List TypeNode} (bare : AllBare nodes) :
    AllSettled (allShortened nodes) := by
  match nodes, bare with
  | [], _ => trivial
  | _ :: _, ⟨own, rest⟩ => exact ⟨settled_shortened own true, allSettled_shortened rest⟩

end

mutual

/-- Lists as arrays, maps of two arguments as records, and primitives for names inside brackets
that have no arguments. -/
def decoded (nested : Bool) : TypeNode → TypeNode
  | ⟨name, args, depth⟩ =>
    if name == "List" then ((allDecoded args).headD ⟨"any", [], 0⟩).deepen (depth + 1)
    else if name == "Map" && args.length == 2 then ⟨"Record", allDecoded args, depth⟩
    else if args.isEmpty && nested then ⟨primitiveName name, [], depth⟩
    else ⟨name, allDecoded args, depth⟩
termination_by structural node => node

def allDecoded : List TypeNode → List TypeNode
  | [] => []
  | node :: rest => decoded true node :: allDecoded rest
termination_by structural nodes => nodes

end

theorem length_allDecoded (nodes : List TypeNode) : (allDecoded nodes).length = nodes.length := by
  induction nodes with
  | nil => rfl
  | cons node rest ih => rw [allDecoded, List.length_cons, List.length_cons, ih]

theorem decoded_cases {P : TypeNode → Prop} {nested : Bool} {name : String} {args : List TypeNode}
    {depth : Nat}
    (list : name = "List" → P (((allDecoded args).headD ⟨"any", [], 0⟩).deepen (depth + 1)))
    (record : name = "Map" → args.length = 2 → P ⟨"Record", allDecoded args, depth⟩)
    (leaf : name ≠ "List" → args = [] → nested = true → P ⟨primitiveName name, [], depth⟩)
    (other : name ≠ "List" → (name = "Map" → args.length ≠ 2) → (args = [] → nested = false) →
      P ⟨name, allDecoded args, depth⟩) : P (decoded nested ⟨name, args, depth⟩) := by
  rw [decoded]
  split
  · rename_i same
    exact list (by simpa using same)
  · rename_i apart
    have plain : name ≠ "List" := by simpa using apart
    split
    · rename_i map
      simp only [Bool.and_eq_true, beq_iff_eq] at map
      exact record map.1 map.2
    · rename_i size
      have sizes : name = "Map" → args.length ≠ 2 := by simpa using size
      split
      · rename_i bare
        simp only [Bool.and_eq_true, List.isEmpty_iff] at bare
        exact leaf plain bare.1 bare.2
      · rename_i inner
        exact other plain sizes (by simpa using inner)

theorem arraySuffix_add (depth extra : Nat) :
    arraySuffix (depth + extra) = arraySuffix depth ++ arraySuffix extra := by
  rw [arraySuffix, ← List.replicate_append_replicate, List.flatten_append, String.ofList_append]
  rfl

theorem render_deepen (rename : String → String) (nested : Bool) (node : TypeNode) (extra : Nat) :
    (node.deepen extra).render rename nested = node.render rename nested ++ arraySuffix extra := by
  obtain ⟨name, args, depth⟩ := node
  rw [deepen, render, render, arraySuffix_add]
  split
  · simp only [String.append_assoc]
  · split
    · simp only [String.append_assoc]
    · split <;> simp only [String.append_assoc]

mutual

theorem printsAsIs_decoded (nested : Bool) (node : TypeNode) :
    (node.decoded nested).printsAsIs = true := by
  match node with
  | ⟨name, args, depth⟩ =>
      have inner := allPrintAsIs_allDecoded args
      have size := length_allDecoded args
      refine decoded_cases (P := fun tree => tree.printsAsIs = true) ?_ ?_ ?_ ?_
      · intro list
        rw [printsAsIs_deepen]
        cases args with
        | nil => decide
        | cons first rest => exact printsAsIs_decoded true first
      · intro map two
        simp [printsAsIs, inner]
      · intro apart bare inside
        have other := primitiveName_ne_list apart
        simp [printsAsIs, allPrintAsIs, other]
      · intro apart sizes bare
        simpa [printsAsIs, inner, size, apart, or_iff_not_imp_left] using sizes

theorem allPrintAsIs_allDecoded (nodes : List TypeNode) :
    allPrintAsIs (allDecoded nodes) = true := by
  match nodes with
  | [] => rfl
  | node :: rest =>
      rw [allDecoded, allPrintAsIs, printsAsIs_decoded true node, allPrintAsIs_allDecoded rest]
      rfl

end

/-- Only a name without arguments is printed otherwise outside of brackets. -/
theorem render_outer {rename : String → String} {node : TypeNode}
    (same : node.render rename true = node.toText) (nested : Bool) :
    node.render rename nested = node.toText := by
  cases nested with
  | true => exact same
  | false =>
      obtain ⟨name, args, depth⟩ := node
      cases args with
      | nil => simp [toText, render, renderAll]
      | cons first rest => simpa [toText, render, renderAll] using same

mutual

/-- The decoded tree prints as the tree does, with or without another look at its names. -/
theorem render_decoded (nested : Bool) (node : TypeNode) :
    (node.decoded nested).toText = node.render primitiveName nested ∧
      (node.decoded nested).render primitiveName nested = (node.decoded nested).toText := by
  match node with
  | ⟨name, args, depth⟩ =>
      obtain ⟨inner, again⟩ := renderAll_decoded args
      have size := length_allDecoded args
      have none : (allDecoded args).isEmpty = args.isEmpty := by
        cases args <;> rfl
      refine decoded_cases (P := fun tree => tree.toText = _ ∧ tree.render _ _ = tree.toText)
        ?_ ?_ ?_ ?_
      · rintro rfl
        have last : arraySuffix (depth + 1) = "[]" ++ arraySuffix depth := by
          rw [Nat.add_comm, arraySuffix_add]
          rfl
        rw [toText, render_deepen, render_deepen, last]
        cases args with
        | nil => cases nested <;> exact ⟨rfl, rfl⟩
        | cons first rest =>
            obtain ⟨own, fixed⟩ := render_decoded true first
            have same := render_outer fixed nested
            rw [toText] at own same
            rw [allDecoded, List.headD_cons, same, own, render, if_pos (by decide), renderAll,
              List.headD_cons, String.append_assoc]
            exact ⟨rfl, rfl⟩
      · rintro rfl two
        have given : args.isEmpty = false := by
          cases args with
          | nil => cases two
          | cons first rest => rfl
        have sizes : "Record" = "Map" → (allDecoded args).length ≠ 2 :=
          fun same => absurd same (by decide)
        have plain := render_other (by decide : "Record" ≠ "List") sizes depth
        have opened : "Record<" = "Record" ++ "<" := rfl
        rw [toText, plain, plain, render_map _ _ _ two, inner, again, inner, none, given, opened]
        simp only [Bool.false_and, Bool.false_eq_true, if_false, String.append_assoc, and_self]
      · rintro apart rfl rfl
        have sizes (name : String) : name = "Map" → ([] : List TypeNode).length ≠ 2 := by simp
        have plain := render_other (primitiveName_ne_list apart) (sizes _) depth
        rw [toText, plain, plain, render_other apart (sizes _)]
        simp [primitiveName_idem]
      · intro apart sizes bare
        have plain := render_other apart
          (by rwa [size] : name = "Map" → (allDecoded args).length ≠ 2)
          depth
        have outer : (args.isEmpty && nested) = false := by simpa using bare
        rw [toText, plain, plain, render_other apart sizes, inner, again, inner, none, outer]
        simp

theorem renderAll_decoded (nodes : List TypeNode) :
    renderAll id (allDecoded nodes) = renderAll primitiveName nodes ∧
      renderAll primitiveName (allDecoded nodes) = renderAll id (allDecoded nodes) := by
  match nodes with
  | [] => exact ⟨rfl, rfl⟩
  | node :: rest =>
      obtain ⟨own, again⟩ := render_decoded true node
      obtain ⟨others, later⟩ := renderAll_decoded rest
      simp only [allDecoded, renderAll, render_id]
      exact ⟨by rw [own, others], by rw [again, later]⟩

end

theorem settled_word {name : String} (given : name ≠ "")
    (plain : name.toList.all Char.isAlphanum = true) (nested : Bool) : IsSettledName nested name :=
  .of_isAlphanum given (List.all_eq_true.mp plain) nested

theorem Settled.deepen {nested : Bool} {node : TypeNode} (settled : node.Settled nested)
    (extra : Nat) : (node.deepen extra).Settled nested := by
  obtain ⟨name, args, depth⟩ := node
  exact settled

mutual

theorem settled_decoded {nested : Bool} {node : TypeNode} (settled : node.Settled nested) :
    (node.decoded nested).Settled nested := by
  match node, settled with
  | ⟨name, args, depth⟩, ⟨named, inner⟩ =>
      have parts := allSettled_decoded inner
      refine decoded_cases (P := fun tree => tree.Settled nested) ?_ ?_ ?_ ?_
      · intro list
        cases args with
        | nil => exact ⟨settled_word (by decide) (by decide) nested, trivial⟩
        | cons first rest =>
            have own := (settled_decoded inner.1).deepen (depth + 1)
            cases nested with
            | true => exact own
            | false => exact own.outer
      · intro map two
        exact ⟨settled_word (by decide) (by decide) nested, parts⟩
      · intro apart bare inside
        have words : ∀ target ∈ ["string", "number", "boolean", "object"],
            target ≠ "" ∧ target.toList.all Char.isAlphanum = true := by decide
        rcases primitiveName_cases name with same | target
        · exact ⟨by rwa [same], trivial⟩
        · exact ⟨settled_word (words _ target).1 (words _ target).2 nested, trivial⟩
      · exact fun apart sizes bare => ⟨named, parts⟩

theorem allSettled_decoded {nodes : List TypeNode} (settled : AllSettled nodes) :
    AllSettled (allDecoded nodes) := by
  match nodes, settled with
  | [], _ => trivial
  | _ :: _, ⟨own, rest⟩ => exact ⟨settled_decoded own, allSettled_decoded rest⟩

end

end TypeNode

section Keys

open TypeExpr

variable {node : TypeNode} {key : String}

theorem SchemaName.ext_of_typeName {first second : String}
    (same : (SchemaName.parse [] first).typeName = (SchemaName.parse [] second).typeName) :
    SchemaName.parse [] first = SchemaName.parse [] second :=
  congrArg (fun name => SchemaName.mk name (fileNameOf name)) same

theorem typeName_of_spells (spelled : Spells node key.toList) (bare : node.Bare) :
    (SchemaName.parse [] key).typeName = ((node.shortened false).decoded false).toText := by
  have printed := ((node.shortened false).render_decoded false).1
  rw [printed, ← parse_schemaKey spelled bare]
  rfl

/-- The name that a key of the grammar decodes to decodes to itself, and gives the same file. -/
theorem decoded_name_kept (spelled : Spells node key.toList) (bare : node.Bare) :
    SchemaName.parse [] (SchemaName.parse [] key).typeName = SchemaName.parse [] key := by
  let tree := (node.shortened false).decoded false
  have name : (SchemaName.parse [] key).typeName = tree.toText := typeName_of_spells spelled bare
  have settled : tree.Settled false :=
    TypeNode.settled_decoded (TypeNode.settled_shortened bare false)
  have printed := spells_toText tree (TypeNode.printsAsIs_decoded false _)
  have read : TypeNode.parse (schemaKey tree.toText) = tree := by
    rw [parse_schemaKey printed settled.bare, TypeNode.shortened_of_settled settled]
  have again : (SchemaName.parse [] tree.toText).typeName = tree.toText := by
    have fixed := ((node.shortened false).render_decoded false).2
    calc
      _ = (TypeNode.parse (schemaKey tree.toText)).render primitiveName false := rfl
      _ = tree.toText := by rw [read, fixed]
  apply SchemaName.ext_of_typeName
  rw [name, again]

def totalsKey : String := "com.x.Response«List«int» [], com.y.Item_VO» []"

def totalsTree : TypeNode := ⟨"Response", [⟨"List", [⟨"int", [], 0⟩], 1⟩, ⟨"Item_VO", [], 0⟩], 1⟩

theorem bare_totalsTree : totalsTree.Bare := by
  exact ⟨.of_check (by decide), ⟨.of_check (by decide), ⟨.of_check (by decide), trivial⟩, trivial⟩,
    ⟨.of_check (by decide), trivial⟩, trivial⟩

theorem spells_totalsTree : Spells totalsTree totalsKey.toList := by
  have blank : ∀ c ∈ [' '], Text.isBlank c = true := List.all_eq_true.mp rfl
  have none : IsPackage [] := ⟨by simp, .inl rfl⟩
  have first : IsPackage "com.x.".toList := ⟨List.all_eq_true.mp rfl, .inr rfl⟩
  have second : IsPackage "com.y.".toList := ⟨List.all_eq_true.mp rfl, .inr rfl⟩
  have int : Spells ⟨"int", [], 0⟩ "int".toList :=
    .node [] [] [] (by simp) none (by simp) .none .zero
  have list : Spells ⟨"List", [⟨"int", [], 0⟩], 1⟩ "List«int» []".toList :=
    .node [] [] [] (by simp) none (by simp) (.some '«' '»' [' '] (by decide) int .nil blank)
      (.succ [] (by simp) .zero)
  have item : Spells ⟨"Item_VO", [], 0⟩ " com.y.Item_VO".toList :=
    .node [' '] "com.y.".toList [] blank second (by simp) .none .zero
  exact .node [] "com.x.".toList [] (by simp) first (by simp)
    (.some '«' '»' [' '] (by decide) list (.cons item .nil) blank) (.succ [] (by simp) .zero)

theorem decoded_name_kept_totals : Spells totalsTree totalsKey.toList ∧ totalsTree.Bare ∧
    (SchemaName.parse [] totalsKey).typeName = "Response<number[][], ItemVO>[]" ∧
    SchemaName.parse [] "Response<number[][], ItemVO>[]" = SchemaName.parse [] totalsKey := by
  have name : (SchemaName.parse [] totalsKey).typeName = "Response<number[][], ItemVO>[]" := by
    rw [typeName_of_spells spells_totalsTree bare_totalsTree]
    decide
  have kept := decoded_name_kept spells_totalsTree bare_totalsTree
  rw [name] at kept
  exact ⟨spells_totalsTree, bare_totalsTree, name, kept⟩

end Keys

end TypedClient

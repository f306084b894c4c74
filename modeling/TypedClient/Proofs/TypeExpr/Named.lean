import TypedClient.Proofs.Naming.Characters
import TypedClient.Proofs.Schema.Rendered
import TypedClient.Proofs.Text.Part
import TypedClient.Proofs.TypeExpr.Spelling

/-!
The names in a type expression: read from the tokens of a text, and printed in the text of a tree.
Printed are those of the tree in preorder, with arrays for lists and records for maps of two
arguments. Names are identifiers, and whatever stands between two of them keeps them apart.
-/

namespace TypedClient

namespace TypeExpr

section Tokens

theorem sublist_of_mem_nameToken {gathered : List Char} {text : String}
    (member : .name text ∈ nameToken gathered) : text.toList.Sublist gathered.reverse := by
  unfold nameToken at member
  dsimp only at member
  split at member
  · cases member
  · rw [List.mem_singleton] at member
    cases member
    rw [String.toList_ofList]
    exact (Text.infix_trimWhere _ _).sublist

theorem delimiter?_ne_name {c : Char} {text : String} : delimiter? c ≠ some (.name text) := by
  unfold delimiter?
  split <;> simp

theorem sublist_of_mem_tokensFrom {gathered rest : List Char} {text : String}
    (member : .name text ∈ tokensFrom gathered rest) :
    text.toList.Sublist (gathered.reverse ++ rest) := by
  have front {gathered : List Char} (rest : List Char) (member : .name text ∈ nameToken gathered) :
      text.toList.Sublist (gathered.reverse ++ rest) :=
    (sublist_of_mem_nameToken member).trans (List.sublist_append_left _ _)
  fun_induction tokensFrom gathered rest with
  | case1 gathered => exact front [] member
  | case2 gathered rest ih =>
      rcases List.mem_append.mp member with own | later
      · exact front _ own
      · rcases List.mem_cons.mp later with same | inside
        · cases same
        · exact (ih inside).trans ((List.sublist_append_right ['[', ']'] rest).trans
            (List.sublist_append_right gathered.reverse _))
  | case3 gathered c rest other token found ih =>
      rcases List.mem_append.mp member with own | later
      · exact front _ own
      · rcases List.mem_cons.mp later with rfl | inside
        · exact absurd found delimiter?_ne_name
        · exact (ih inside).trans ((List.sublist_cons_self c rest).trans
            (List.sublist_append_right gathered.reverse _))
  | case4 gathered c rest other plain ih =>
      have whole := ih member
      rwa [List.reverse_cons, List.append_assoc, List.singleton_append] at whole

theorem dropPackage_suffix (name : List Char) : dropPackage name <:+ name := by
  unfold dropPackage
  dsimp only
  split
  · have whole :
        name.takeWhile (· != '\n') ++ name.drop (name.takeWhile (· != '\n')).length = name := by
      rw [Text.drop_takeWhile, List.takeWhile_append_dropWhile]
    have last : Text.afterLast (fun c => c == '.' || c == '/') (name.takeWhile (· != '\n')) <:+
        name.takeWhile (· != '\n') := by
      rw [Text.afterLast, ← List.reverse_prefix, List.reverse_reverse]
      exact List.takeWhile_prefix _
    obtain ⟨front, shape⟩ := last
    refine ⟨front, ?_⟩
    rw [← List.append_assoc, shape, whole]
  · exact List.suffix_refl _

theorem cleanName_subset (nested : Bool) (name : String) :
    (cleanName nested name).toList ⊆ name.toList := by
  have short := (dropPackage_suffix name.toList).subset
  unfold cleanName
  dsimp only
  rw [String.toList_ofList]
  split
  · exact short
  · exact List.Subset.trans (List.filter_subset_self _) short

end Tokens

end TypeExpr

/-- A type expression whose names all have a property. -/
inductive TypeNode.Named (P : String → Prop) : TypeNode → Prop
  | node {name : String} {args : List TypeNode} {depth : Nat} (own : P name)
      (inner : ∀ arg ∈ args, arg.Named P) : Named P ⟨name, args, depth⟩

namespace TypeExpr

variable {P : String → Prop}

theorem dropArrays_subset (tokens : List Token) : dropArrays tokens ⊆ tokens := by
  fun_induction dropArrays tokens with
  | case1 rest ih => exact List.subset_cons_of_subset _ ih
  | case2 => exact List.Subset.refl _

/-- The arguments that are read have the names of the tokens; what is not read stands behind. -/
theorem named_readArgs (bare : P "") {tokens : List Token}
    (named : ∀ text, .name text ∈ tokens → P (cleanName true text)) :
    (∀ arg ∈ (readArgs tokens).1, arg.Named P) ∧ (readArgs tokens).2.1 ⊆ tokens := by
  fun_induction readArgs tokens with
  | case1 => exact ⟨by simp, List.Subset.refl _⟩
  | case2 rest => exact ⟨by simp, List.subset_cons_self _ _⟩
  | case3 inner args rest shorter read ih =>
      rw [read] at ih
      obtain ⟨all, behind⟩ := ih fun text member => named text (by simp [member])
      exact ⟨all, List.subset_cons_of_subset _ behind⟩
  | case4 text inner own tail shorter read bound args rest less read' ih ih' =>
      rw [read] at ih
      rw [read'] at ih'
      obtain ⟨inside, front⟩ := ih fun text member => named text (by simp [member])
      have within := List.Subset.trans (dropArrays_subset tail) front
      obtain ⟨all, behind⟩ := ih' fun text member => named text (by simp [within member])
      refine ⟨?_, List.subset_cons_of_subset _ (List.subset_cons_of_subset _
        (List.Subset.trans behind within))⟩
      exact List.forall_mem_cons.mpr ⟨.node (named text (by simp)) inside, all⟩
  | case5 text tail other bound args rest less read ih =>
      rw [read] at ih
      have within := dropArrays_subset tail
      obtain ⟨all, behind⟩ := ih fun text member => named text (by simp [within member])
      refine ⟨?_, List.subset_cons_of_subset _ (List.Subset.trans behind within)⟩
      exact List.forall_mem_cons.mpr ⟨.node (named text (by simp)) (by simp), all⟩
  | case6 inner own tail shorter read bound args rest less read' ih ih' =>
      rw [read] at ih
      rw [read'] at ih'
      obtain ⟨inside, front⟩ := ih fun text member => named text (by simp [member])
      have within := List.Subset.trans (dropArrays_subset tail) front
      obtain ⟨all, behind⟩ := ih' fun text member => named text (by simp [within member])
      refine ⟨?_, List.subset_cons_of_subset _ (List.Subset.trans behind within)⟩
      exact List.forall_mem_cons.mpr ⟨.node bare inside, all⟩
  | case7 tail bound args rest less read ih =>
      rw [read] at ih
      have within := dropArrays_subset tail
      obtain ⟨all, behind⟩ := ih fun text member => named text (by simp [within member])
      refine ⟨?_, List.subset_cons_of_subset _ (List.Subset.trans behind within)⟩
      exact List.forall_mem_cons.mpr ⟨.node bare (by simp), all⟩

theorem named_readNode (bare : P "") {nested : Bool} {tokens : List Token}
    (outer : ∀ text, .name text ∈ tokens → P (cleanName nested text))
    (inner : ∀ text, .name text ∈ tokens → P (cleanName true text)) :
    (readNode nested tokens).1.Named P := by
  obtain ⟨own, within⟩ : P (splitName nested tokens).1 ∧ (splitName nested tokens).2 ⊆ tokens := by
    unfold splitName
    split
    · exact ⟨outer _ (by simp), List.subset_cons_self _ _⟩
    · exact ⟨bare, List.Subset.refl _⟩
  unfold readNode
  dsimp only
  split
  · rename_i behind shape
    rw [shape] at within
    have args := named_readArgs bare fun text member =>
      inner text (within (List.mem_cons_of_mem _ member))
    exact .node own args.1
  · exact .node own (by simp)

end TypeExpr

open TypeExpr

namespace TypeNode

theorem render_other {name : String} {args : List TypeNode} (apart : name ≠ "List")
    (sizes : name = "Map" → args.length ≠ 2) (depth : Nat) (rename : String → String)
    (nested : Bool) :
    (TypeNode.mk name args depth).render rename nested =
      (if args.isEmpty && nested then rename name else name) ++
        (if args.isEmpty then ""
          else "<" ++ ", ".intercalate (renderAll rename args) ++ ">") ++ arraySuffix depth := by
  have size := renderAll_length rename args
  have none : (renderAll rename args).isEmpty = args.isEmpty := by
    cases args <;> rfl
  have map : (name == "Map" && (renderAll rename args).length == 2) = false := by
    simpa [size] using sizes
  rw [render]
  simp only [beq_false_of_ne apart, map, none, Bool.false_eq_true, if_false]
  cases bare : args.isEmpty <;> simp [String.append_assoc]

theorem render_map (rename : String → String) (nested : Bool) {args : List TypeNode} (depth : Nat)
    (two : args.length = 2) :
    (TypeNode.mk "Map" args depth).render rename nested =
      "Record<" ++ ", ".intercalate (renderAll rename args) ++ ">" ++ arraySuffix depth := by
  have size := renderAll_length rename args
  rw [render]
  simp [size, two]

end TypeNode

section Render

variable {rename : String → String} {Allowed : Char → Prop}

theorem written_arraySuffix (marks : WrittenIn Allowed "[]") (depth : Nat) :
    WrittenIn Allowed (TypeNode.arraySuffix depth) := by
  intro c member
  rw [TypeNode.arraySuffix, String.toList_ofList] at member
  obtain ⟨mark, copies, inside⟩ := List.mem_flatten.mp member
  rw [List.eq_of_mem_replicate copies] at inside
  exact marks c inside

/-- The text of a type expression has the characters of its names, as they are or renamed, and those
that printing brings along. -/
theorem written_render (printed : WrittenIn Allowed "anyRecord<, >[]")
    (renamed : ∀ name, WrittenIn Allowed name → WrittenIn Allowed (rename name)) {node : TypeNode}
    (named : node.Named (WrittenIn Allowed)) (nested : Bool) :
    WrittenIn Allowed (node.render rename nested) := by
  induction named generalizing nested with
  | @node name args depth own inner ih =>
      have parts : ∀ part ∈ TypeNode.renderAll rename args, WrittenIn Allowed part := by
        intro part member
        rw [TypeExpr.renderAll_map] at member
        obtain ⟨arg, inside, rfl⟩ := List.mem_map.mp member
        exact ih arg inside true
      have comma : WrittenIn Allowed ", " := printed.of_subset (by decide)
      have joined : WrittenIn Allowed (", ".intercalate (TypeNode.renderAll rename args)) :=
        WrittenIn.intercalate comma parts
      have opening : WrittenIn Allowed "<" := printed.of_subset (by decide)
      have closing : WrittenIn Allowed ">" := printed.of_subset (by decide)
      have array : WrittenIn Allowed "[]" := printed.of_subset (by decide)
      have record : WrittenIn Allowed "Record<" := printed.of_subset (by decide)
      have marks := written_arraySuffix array depth
      rw [TypeNode.render]
      split
      · refine (WrittenIn.append ?_ array).append marks
        cases shape : TypeNode.renderAll rename args with
        | nil =>
            have any : WrittenIn Allowed "any" := printed.of_subset (by decide)
            exact any
        | cons first rest => exact parts first (by simp [shape])
      · split
        · exact ((record.append joined).append closing).append marks
        · split
          · refine WrittenIn.append ?_ marks
            split
            · exact renamed name own
            · exact own
          · exact (((own.append opening).append joined).append closing).append marks

variable {Known : String → Prop}

theorem among_arraySuffix {body : String} (among : NamesAmong Known body.toList) (depth : Nat) :
    NamesAmong Known (body ++ TypeNode.arraySuffix depth).toList := by
  induction depth with
  | zero => simpa [TypeNode.arraySuffix] using among
  | succ depth ih =>
      rw [arraySuffix_succ, ← String.append_assoc, String.toList_append]
      exact ih.marked

/-- The text of a type expression keeps to the names in it, as they are or renamed, and those that
printing brings along. -/
theorem among_render (any : NamesAmong Known "any".toList)
    (record : NamesAmong Known "Record".toList)
    (renamed : ∀ name, NamesAmong Known name.toList → NamesAmong Known (rename name).toList)
    {node : TypeNode} (named : node.Named fun name => NamesAmong Known name.toList)
    (nested : Bool) : NamesAmong Known (node.render rename nested).toList := by
  induction named generalizing nested with
  | @node name args depth own inner ih =>
      have parts : ∀ part ∈ TypeNode.renderAll rename args, NamesAmong Known part.toList := by
        intro part member
        rw [renderAll_map] at member
        obtain ⟨arg, inside, rfl⟩ := List.mem_map.mp member
        exact ih arg inside true
      have joined : NamesAmong Known (", ".intercalate (TypeNode.renderAll rename args)).toList :=
        among_joined (by decide) (by decide) parts
      have enclosed {front : String} (among : NamesAmong Known front.toList) :
          NamesAmong Known (front ++ "<" ++ ", ".intercalate (TypeNode.renderAll rename args) ++
            ">").toList := by
        have whole := among.join (c := '<') (by decide) (joined.concat (c := '>') (by decide))
        simpa using whole
      rw [TypeNode.render]
      split
      · refine among_arraySuffix ?_ depth
        rw [String.toList_append]
        cases shape : TypeNode.renderAll rename args with
        | nil => exact any.marked
        | cons first rest => exact (parts first (by simp [shape])).marked
      · split
        · exact among_arraySuffix (enclosed record) depth
        · split
          · refine among_arraySuffix ?_ depth
            split
            · exact renamed name own
            · exact own
          · exact among_arraySuffix (enclosed own) depth

end Render

namespace TypeNode

mutual

/-- The tree with arrays for lists and records for maps of two arguments. -/
def rewritten : TypeNode → TypeNode
  | ⟨name, args, depth⟩ =>
    if name == "List" then ((allRewritten args).headD ⟨"any", [], 0⟩).deepen (depth + 1)
    else if name == "Map" && args.length == 2 then ⟨"Record", allRewritten args, depth⟩
    else ⟨name, allRewritten args, depth⟩
termination_by structural node => node

def allRewritten : List TypeNode → List TypeNode
  | [] => []
  | node :: rest => rewritten node :: allRewritten rest
termination_by structural nodes => nodes

end

mutual

/-- The names of a tree, each node in front of its arguments. -/
def preorder : TypeNode → List String
  | ⟨name, args, _⟩ => name :: allPreorder args
termination_by structural node => node

def allPreorder : List TypeNode → List String
  | [] => []
  | node :: rest => preorder node ++ allPreorder rest
termination_by structural nodes => nodes

end

theorem allPreorder_allRewritten (nodes : List TypeNode) :
    allPreorder (allRewritten nodes) = nodes.flatMap fun node => node.rewritten.preorder := by
  induction nodes with
  | nil => rfl
  | cons node rest ih => rw [allRewritten, allPreorder, ih, List.flatMap_cons]

theorem preorder_deepen (node : TypeNode) (extra : Nat) :
    (node.deepen extra).preorder = node.preorder := by
  obtain ⟨name, args, depth⟩ := node
  rw [deepen, preorder, preorder]

end TypeNode

section Printed

variable {names : List String} {body : String}

theorem hasNames_arraySuffix (has : HasNames names body.toList) (depth : Nat) :
    HasNames names (body ++ TypeNode.arraySuffix depth).toList := by
  induction depth with
  | zero => simpa [TypeNode.arraySuffix] using has
  | succ depth ih =>
      rw [arraySuffix_succ, ← String.append_assoc, String.toList_append]
      exact ih.marked

theorem hasNames_brackets {args : List TypeNode} (has : HasNames names body.toList)
    (inner : ∀ arg ∈ args, HasNames arg.rewritten.preorder arg.toText.toList) :
    HasNames (names ++ TypeNode.allPreorder (TypeNode.allRewritten args))
      (body ++ "<" ++ ", ".intercalate (TypeNode.renderAll id args) ++ ">").toList := by
  have breaks : [',', ' '].all isBreak = true := by decide
  have joined := HasNames.intercalate (by simp) (List.all_eq_true.mp breaks) inner
  have whole := has.join (c := '<') (by decide) (joined.concat (c := '>') (by decide))
  have shown : TypeNode.renderAll id args = args.map TypeNode.toText := by
    rw [renderAll_map]
    exact List.map_congr_left fun arg _ => render_id true arg
  rw [TypeNode.allPreorder_allRewritten, shown]
  simpa [String.toList_intercalate, Function.comp_def] using whole

/-- The printed text of a tree has the names of the tree, lists and maps rewritten, in preorder. -/
theorem hasNames_toText {node : TypeNode} (named : node.Named (isName · = true)) :
    HasNames node.rewritten.preorder node.toText.toList := by
  induction named with
  | @node name args depth own inner ih =>
      by_cases list : name = "List"
      · subst list
        rw [TypeNode.toText, TypeNode.render, TypeNode.rewritten, if_pos (by decide),
          if_pos (by decide), TypeNode.preorder_deepen]
        apply hasNames_arraySuffix
        rw [String.toList_append]
        cases args with
        | nil => exact (HasNames.name (by decide)).marked
        | cons first rest =>
            rw [TypeNode.renderAll, TypeNode.allRewritten, List.headD_cons, List.headD_cons,
              render_id]
            exact (ih first (by simp)).marked
      · by_cases map : name = "Map" ∧ args.length = 2
        · obtain ⟨rfl, two⟩ := map
          have record : HasNames ["Record"] "Record".toList := .name (by decide)
          rw [TypeNode.toText, TypeNode.render_map id false depth two, TypeNode.rewritten]
          simp only [two, beq_self_eq_true, Bool.and_self, if_true]
          exact hasNames_arraySuffix (hasNames_brackets record ih) depth
        · have sizes : name = "Map" → args.length ≠ 2 := fun same two => map ⟨same, two⟩
          have word : HasNames [name] name.toList := .name own
          have plain : (name == "Map" && args.length == 2) = false := by simpa using sizes
          rw [TypeNode.toText, TypeNode.render_other list sizes, TypeNode.rewritten, plain,
            if_neg (by simpa using list), if_neg Bool.false_ne_true]
          apply hasNames_arraySuffix
          cases args with
          | nil =>
              simpa [TypeNode.preorder, TypeNode.allRewritten, TypeNode.allPreorder] using word
          | cons first rest =>
              simpa [TypeNode.preorder, String.append_assoc] using hasNames_brackets word ih

end Printed

/-- The names collected from the printed text of a tree are its names in preorder, lists and maps
rewritten, each once, without base types and those that the language brings. -/
theorem modelNames_toText {node : TypeNode} (named : node.Named (isName · = true)) :
    modelNames node.toText =
      (node.rewritten.preorder.filter fun name => !isBuiltin name).eraseDups := by
  have listed := (hasNames_toText named).listed
  unfold modelNames isBuiltin
  simp only [listed, Bool.not_or]

section Response

def userPage : TypeNode := ⟨"Page", [⟨"User", [], 0⟩, ⟨"_id$1", [], 0⟩], 0⟩

def pagedResponse : TypeNode :=
  ⟨"Response", [⟨"List", [⟨"User", [], 0⟩], 1⟩, ⟨"Map", [⟨"string", [], 0⟩, userPage], 0⟩], 0⟩

theorem named_pagedResponse : pagedResponse.Named (isName · = true) := by
  have leaf (name : String) (own : isName name = true) :
      (⟨name, [], 0⟩ : TypeNode).Named (isName · = true) :=
    .node own (by simp)
  have user := leaf "User" (by decide)
  have page : userPage.Named (isName · = true) :=
    .node (by decide) (by simpa using ⟨user, leaf "_id$1" (by decide)⟩)
  have list : (⟨"List", [⟨"User", [], 0⟩], 1⟩ : TypeNode).Named (isName · = true) :=
    .node (by decide) (by simpa using user)
  have map : (⟨"Map", [⟨"string", [], 0⟩, userPage], 0⟩ : TypeNode).Named (isName · = true) :=
    .node (by decide) (by simpa using ⟨leaf "string" (by decide), page⟩)
  exact .node (by decide) (by simpa using ⟨list, map⟩)

theorem modelNames_toText_response : pagedResponse.Named (isName · = true) ∧
    pagedResponse.toText = "Response<User[][], Record<string, Page<User, _id$1>>>" ∧
    modelNames pagedResponse.toText = ["Response", "User", "Page", "_id$1"] := by
  refine ⟨named_pagedResponse, by decide, ?_⟩
  rw [modelNames_toText named_pagedResponse]
  decide

end Response

end TypedClient

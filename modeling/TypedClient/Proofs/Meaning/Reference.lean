import TypedClient.Proofs.Meaning.Reading
import TypedClient.Proofs.Naming.SchemaKey
import TypedClient.Proofs.Text.Part
import TypedClient.Proofs.TypeExpr.Spelling

namespace TypedClient

namespace TypeTree

def arrays : Nat → TypeTree → TypeTree
  | 0, tree => tree
  | depth + 1, tree => array (arrays depth tree)

mutual

/-- Lists are arrays and maps of two arguments records; a nested name without arguments goes through
`rename`. -/
def ofNode (rename : String → String) (nested : Bool) : TypeNode → TypeTree
  | ⟨name, args, depth⟩ =>
    let trees := ofNodes rename args
    arrays depth <|
      if name == "List" then array (trees.headD any)
      else if name == "Map" && trees.length == 2 then named "Record" trees
      else if trees.isEmpty then named (if nested then rename name else name) []
      else named name trees

def ofNodes (rename : String → String) : List TypeNode → List TypeTree
  | [] => []
  | node :: rest => ofNode rename true node :: ofNodes rename rest

end

theorem ofNodes_eq (rename : String → String) (nodes : List TypeNode) :
    ofNodes rename nodes = nodes.map (ofNode rename true) := by
  induction nodes with
  | nil => rfl
  | cons node rest ih => exact congrArg (ofNode rename true node :: ·) ih

abbrev IsUnsigned (text : String) : Prop := text.toList.all (fun c => c != '|' && c != '&') = true

theorem grouped_of_unsigned {text : String} (unsigned : IsUnsigned text) :
    PropertyType.grouped text = text := by
  have apart (part : String) (signed : ¬ IsUnsigned part) : containsText part text = false := by
    rw [Bool.eq_false_iff]
    intro held
    apply signed
    have inside := ((Text.contains_iff _ _).mp held).subset
    exact List.all_eq_true.mpr fun c member => List.all_eq_true.mp unsigned c (inside member)
  rw [PropertyType.grouped, apart " | " (by decide), apart " & " (by decide)]
  rfl

theorem arrays_isLegible (depth : Nat) (tree : TypeTree) :
    (arrays depth tree).isLegible = tree.isLegible := by
  induction depth with
  | zero => rfl
  | succ depth ih => exact ih

theorem IsUnsigned.append {front back : String} (first : IsUnsigned front)
    (second : IsUnsigned back) : IsUnsigned (front ++ back) := by
  rw [IsUnsigned, String.toList_append, List.all_append, first, second]
  rfl

theorem IsUnsigned.of_isWord {name : String} (word : Reading.isWord name = true) :
    IsUnsigned name := by
  rw [Reading.isWord, Bool.and_eq_true, List.all_eq_true] at word
  rw [IsUnsigned, List.all_eq_true]
  intro c member
  have plain := word.2 c member
  rw [Bool.and_eq_true, bne_iff_ne, bne_iff_ne]
  constructor
  · rintro rfl
    exact absurd plain (by decide)
  · rintro rfl
    exact absurd plain (by decide)

theorem IsUnsigned.joined {texts : List String} (all : ∀ text ∈ texts, IsUnsigned text) :
    IsUnsigned (", ".intercalate texts) := by
  induction texts with
  | nil => rfl
  | cons first rest ih =>
      have later := ih fun text member => all text (by simp [member])
      cases rest with
      | nil =>
          rw [String.intercalate_singleton]
          exact all first (by simp)
      | cons second rest =>
          have comma : IsUnsigned ", " := by decide
          rw [String.intercalate_cons_cons]
          exact ((all first (by simp)).append comma).append later

structure Prints (text : String) (tree : TypeTree) : Prop where
  spelled : text = tree.spell
  unsigned : IsUnsigned text

namespace Prints

variable {text : String} {tree : TypeTree}

theorem array (prints : Prints text tree) : Prints (text ++ "[]") (array tree) := by
  constructor
  · rw [spell, ← prints.spelled, grouped_of_unsigned prints.unsigned]
  · exact prints.unsigned.append (by decide)

theorem arrays (prints : Prints text tree) (depth : Nat) :
    Prints (text ++ TypeNode.arraySuffix depth) (arrays depth tree) := by
  induction depth with
  | zero =>
      have none : TypeNode.arraySuffix 0 = "" := rfl
      rw [none, String.append_empty]
      exact prints
  | succ depth ih =>
      rw [TypeExpr.arraySuffix_succ, ← String.append_assoc]
      exact ih.array

theorem name (word : Reading.isWord text = true) : Prints text (named text []) :=
  ⟨rfl, .of_isWord word⟩

theorem generic {α : Type} {args : List α} {texts : α → String} {trees : α → TypeTree}
    (word : Reading.isWord text = true) (given : args ≠ [])
    (prints : ∀ arg ∈ args, Prints (texts arg) (trees arg)) :
    Prints (text ++ "<" ++ ", ".intercalate (args.map texts) ++ ">")
      (named text (args.map trees)) := by
  have filled : (args.map trees).isEmpty = false := by simpa using given
  have spelled : args.map texts = spellAll (args.map trees) := by
    rw [spellAll_eq, List.map_map]
    exact List.map_congr_left fun arg member => (prints arg member).spelled
  have all : ∀ text ∈ args.map texts, IsUnsigned text := by
    intro text member
    obtain ⟨arg, inside, rfl⟩ := List.mem_map.mp member
    exact (prints arg inside).unsigned
  constructor
  · rw [spell, filled, spelled]
    rfl
  · exact (((IsUnsigned.of_isWord word).append (by decide)).append (.joined all)).append (by decide)

end Prints

theorem prints_ofNode (rename : String → String) (node : TypeNode) :
    ∀ nested, (ofNode rename nested node).isLegible = true →
      Prints (node.render rename nested) (ofNode rename nested node) := by
  apply @TypeNode.rec
    (fun node => ∀ nested, (ofNode rename nested node).isLegible = true →
      Prints (node.render rename nested) (ofNode rename nested node))
    (fun nodes => ∀ node ∈ nodes, ∀ nested, (ofNode rename nested node).isLegible = true →
      Prints (node.render rename nested) (ofNode rename nested node))
  case nil => exact fun node member => absurd member List.not_mem_nil
  case cons => exact fun first rest head tail => List.forall_mem_cons.mpr ⟨head, tail⟩
  case mk =>
    intro name args depth ih nested legible
    rw [ofNode, arrays_isLegible, ofNodes_eq] at legible
    rw [ofNode, TypeNode.render, ofNodes_eq, TypeExpr.renderAll_map]
    have inner (all : (allLegible (args.map (ofNode rename true))) = true) :
        ∀ arg ∈ args, Prints (arg.render rename true) (ofNode rename true arg) := by
      intro arg member
      rw [allLegible_eq, List.all_map, List.all_eq_true] at all
      exact ih arg member true (all arg member)
    cases list : name == "List" with
    | true =>
        simp only [list, if_true] at legible ⊢
        refine Prints.arrays (Prints.array ?_) depth
        -- of a list only the first argument is written, so only that one has to be legible
        cases args with
        | nil =>
            have named : Reading.isWord "any" = true := rfl
            exact Prints.name named
        | cons first rest => exact ih first (by simp) true legible
    | false =>
        simp only [list, List.length_map, List.isEmpty_map, Bool.false_eq_true, if_false]
          at legible ⊢
        cases map : name == "Map" && args.length == 2 with
        | true =>
            have given : args ≠ [] := by
              rintro rfl
              simp at map
            simp only [map, if_true, isLegible, Bool.and_eq_true] at legible ⊢
            exact (Prints.generic legible.1 given (inner legible.2)).arrays depth
        | false =>
            simp only [map, Bool.false_eq_true, if_false] at legible ⊢
            cases args with
            | nil => exact (Prints.name (Bool.and_eq_true_iff.mp legible).1).arrays depth
            | cons first rest =>
                obtain ⟨word, all⟩ := Bool.and_eq_true_iff.mp legible
                exact (Prints.generic word (by simp) (inner all)).arrays depth

def baseName (name : String) : String := (baseMapping.lookup name).getD name

-- unifying two trees must not run the parser
@[irreducible]
def ofRef (ref : String) : TypeTree := ofNode baseName false (TypeNode.parse (schemaKey ref))

theorem ofRef_of_plain {ref key : String} (plain : isPlainKey key = true)
    (leads : schemaKey ref = key) : ofRef ref = named key [] := by
  obtain ⟨first, rest, same, -, inside, other⟩ := isPlainKey_spelled plain
  have parsed := TypeExpr.parse_of_alphanum (by simp) inside
  rw [← same] at parsed
  rw [ofRef, leads, parsed]
  simp [ofNode, ofNodes, arrays, other]

theorem typeName_ofRef {ref : String} (legible : (ofRef ref).isLegible = true) :
    (SchemaName.parse [] ref).typeName = (ofRef ref).spell := by
  rw [ofRef] at legible ⊢
  exact (prints_ofNode baseName _ false legible).spelled

end TypeTree

end TypedClient

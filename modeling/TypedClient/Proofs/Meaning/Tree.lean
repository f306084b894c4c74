import Mathlib.Data.List.Forall2
import TypedClient.Proofs.Schema.Rendered

namespace TypedClient

inductive Connective
  | union
  | intersection
  deriving DecidableEq, Repr

inductive TypeTree
  | named (name : String) (args : List TypeTree)
  | literal (value : String)
  | array (item : TypeTree)
  | joined (connective : Connective) (parts : List TypeTree)
  deriving Repr, Inhabited

namespace TypeTree

def any : TypeTree := named "any" []

/-- An object whose values have one type, under keys that are texts. -/
def record (value : TypeTree) : TypeTree := named "Record" [named "string" [], value]

/-- What holds of a tree if it holds of its parts holds of all trees. -/
@[induction_eliminator]
theorem byParts {motive : TypeTree → Prop}
    (named : ∀ name args, (∀ arg ∈ args, motive arg) → motive (.named name args))
    (literal : ∀ value, motive (.literal value))
    (array : ∀ item, motive item → motive (.array item))
    (joined : ∀ connective parts, (∀ part ∈ parts, motive part) →
      motive (.joined connective parts))
    (tree : TypeTree) : motive tree := by
  apply @TypeTree.rec motive fun trees => ∀ tree ∈ trees, motive tree
  case named => exact named
  case literal => exact literal
  case array => exact array
  case joined => exact joined
  case nil => exact fun tree member => absurd member List.not_mem_nil
  case cons => exact fun first rest head tail => List.forall_mem_cons.mpr ⟨head, tail⟩

/-- Equality up to associativity, repeated variants and connectives with a single part. -/
inductive Same : TypeTree → TypeTree → Prop
  | refl (tree : TypeTree) : Same tree tree
  | symm {first second : TypeTree} (same : Same first second) : Same second first
  | trans {first second third : TypeTree} (front : Same first second) (back : Same second third) :
      Same first third
  | named {front back : TypeTree} (name : String) (before after : List TypeTree)
      (same : Same front back) :
      Same (named name (before ++ front :: after)) (named name (before ++ back :: after))
  | array {first second : TypeTree} (same : Same first second) : Same (array first) (array second)
  | part {front back : TypeTree} (connective : Connective) (before after : List TypeTree)
      (same : Same front back) :
      Same (joined connective (before ++ front :: after))
        (joined connective (before ++ back :: after))
  | single (connective : Connective) (tree : TypeTree) : Same (joined connective [tree]) tree
  | nested (connective : Connective) (before inner after : List TypeTree) :
      Same (joined connective (before ++ joined connective inner :: after))
        (joined connective (before ++ inner ++ after))
  | repeated (connective : Connective) (before between after : List TypeTree) (tree : TypeTree) :
      Same (joined connective (before ++ tree :: between ++ tree :: after))
        (joined connective (before ++ tree :: between ++ after))

namespace Same

variable {α : Type} {first second : List TypeTree}

theorem args (name : String) (before : List TypeTree) (same : List.Forall₂ Same first second) :
    Same (.named name (before ++ first)) (.named name (before ++ second)) := by
  induction same generalizing before with
  | nil => exact refl _
  | @cons front back rest others head _ ih =>
      have tail := ih (before ++ [back])
      rw [List.append_assoc, List.append_assoc] at tail
      exact (named name before rest head).trans tail

theorem parts (connective : Connective) (before : List TypeTree)
    (same : List.Forall₂ Same first second) :
    Same (.joined connective (before ++ first)) (.joined connective (before ++ second)) := by
  induction same generalizing before with
  | nil => exact refl _
  | @cons front back rest others head _ ih =>
      have tail := ih (before ++ [back])
      rw [List.append_assoc, List.append_assoc] at tail
      exact (part connective before rest head).trans tail

/-- A connective inside the same connective groups nothing. -/
theorem flatten (connective : Connective) (before : List TypeTree) (groups : List (List TypeTree)) :
    Same (.joined connective (before ++ groups.map (.joined connective)))
      (.joined connective (before ++ groups.flatten)) := by
  induction groups generalizing before with
  | nil => exact refl _
  | cons group rest ih =>
      have tail := ih (before ++ group)
      rw [List.append_assoc before group rest.flatten] at tail
      exact (nested connective before group _).trans tail

theorem filter (connective : Connective) (before between : List TypeTree)
    (meaning : String → TypeTree) (text : String) (texts : List String) :
    Same
      (.joined connective (before ++ meaning text :: between ++
        (texts.filter fun other => !other == text).map meaning))
      (.joined connective (before ++ meaning text :: between ++ texts.map meaning)) := by
  induction texts generalizing between with
  | nil => exact refl _
  | cons other rest ih =>
      by_cases same : other = text
      · rw [List.filter_cons_of_neg (by simp [same]), same]
        exact (ih between).trans (repeated connective before between _ _).symm
      · have later := ih (between ++ [meaning other])
        rw [List.filter_cons_of_pos (by simpa using same)]
        simpa using later

theorem eraseDups (connective : Connective) (meaning : String → TypeTree) :
    ∀ (before : List TypeTree) (texts : List String),
      Same (.joined connective (before ++ texts.eraseDups.map meaning))
        (.joined connective (before ++ texts.map meaning))
  | _, [] => refl _
  | before, text :: rest => by
      have front := eraseDups connective meaning (before ++ [meaning text])
        (rest.filter fun other => !other == text)
      have back := filter connective before [] meaning text rest
      rw [List.append_assoc, List.append_assoc] at back
      rw [List.append_assoc, List.append_assoc] at front
      rw [List.eraseDups_cons]
      exact front.trans back
termination_by _ texts => texts.length
decreasing_by exact Nat.lt_succ_of_le (List.length_filter_le _ _)

end Same

/-- What a value is measured by: whether it has the types that no connective joins. -/
structure World where
  named : String → List Bool → Bool
  literal : String → Bool
  array : Bool → Bool

mutual

def holds (world : World) : TypeTree → Bool
  | named name args => world.named name (holdsAll world args)
  | literal value => world.literal value
  | array item => world.array (holds world item)
  | joined .union parts => (holdsAll world parts).any id
  | joined .intersection parts => (holdsAll world parts).all id

def holdsAll (world : World) : List TypeTree → List Bool
  | [] => []
  | tree :: rest => holds world tree :: holdsAll world rest

end

theorem holdsAll_eq (world : World) (trees : List TypeTree) :
    holdsAll world trees = trees.map (holds world) := by
  induction trees with
  | nil => rfl
  | cons tree rest ih => exact congrArg (tree.holds world :: ·) ih

theorem Same.holds_eq {first second : TypeTree} (same : Same first second) (world : World) :
    first.holds world = second.holds world := by
  induction same with
  | refl tree => rfl
  | symm _ ih => exact ih.symm
  | trans _ _ front back => exact front.trans back
  | named name before after _ ih => simp [holds, holdsAll_eq, ih]
  | array _ ih => rw [holds, holds, ih]
  | part connective before after _ ih => cases connective <;> simp [holds, holdsAll_eq, ih]
  | single connective tree => cases connective <;> simp [holds, holdsAll_eq]
  | nested connective before inner after => cases connective <;> simp [holds, holdsAll_eq]
  | repeated connective before between after tree =>
      cases held : tree.holds world <;> cases connective <;> simp [holds, holdsAll_eq, held]

end TypeTree

def Connective.sign : Connective → Char
  | union => '|'
  | intersection => '&'

def Connective.separator (connective : Connective) : String :=
  String.ofList [' ', connective.sign, ' ']

namespace TypeTree

mutual

def spell : TypeTree → String
  | named name args =>
    if args.isEmpty then name else name ++ "<" ++ ", ".intercalate (spellAll args) ++ ">"
  | literal value => "'" ++ replaceText "'" "\\'" value ++ "'"
  | array item => PropertyType.grouped (spell item) ++ "[]"
  | joined connective parts => connective.separator.intercalate (spellAll parts).eraseDups

def spellAll : List TypeTree → List String
  | [] => []
  | tree :: rest => spell tree :: spellAll rest

end

mutual

def splits : TypeTree → Bool
  | named _ _ => false
  | literal _ => false
  | array _ => false
  | joined connective parts =>
    (connective == .union && 2 ≤ (spellAll parts).eraseDups.length) || anySplits parts

def anySplits : List TypeTree → Bool
  | [] => false
  | tree :: rest => splits tree || anySplits rest

end

mutual

/-- Whether all intersections of several texts are of texts without unions. -/
def isApart : TypeTree → Bool
  | named _ args => allApart args
  | literal _ => true
  | array item => isApart item
  | joined connective parts =>
    (connective == .union || (spellAll parts).eraseDups.length ≤ 1 || !anySplits parts) &&
      allApart parts

def allApart : List TypeTree → Bool
  | [] => true
  | tree :: rest => isApart tree && allApart rest

end

theorem spellAll_eq (trees : List TypeTree) : spellAll trees = trees.map spell := by
  induction trees with
  | nil => rfl
  | cons tree rest ih => exact congrArg (tree.spell :: ·) ih

theorem anySplits_eq (trees : List TypeTree) : anySplits trees = trees.any splits := by
  induction trees with
  | nil => rfl
  | cons tree rest ih => exact congrArg (tree.splits || ·) ih

theorem allApart_eq (trees : List TypeTree) : allApart trees = trees.all isApart := by
  induction trees with
  | nil => rfl
  | cons tree rest ih => exact congrArg (tree.isApart && ·) ih

end TypeTree

end TypedClient

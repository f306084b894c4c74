import Mathlib.Algebra.GroupWithZero.Nat
import TypedClient.Proofs.Ignore.Stripped
import TypedClient.Proofs.Naming.SchemaKey
import TypedClient.Proofs.Naming.Solid

/-!
The way from a type inwards through first arguments, and where taking off wrappers stops on it: at
the first node that may remain, with the array marks of all that is skipped.
-/

namespace TypedClient

open TypeExpr

/-- A name of ASCII letters and digits. -/
structure IsWordName (name : String) : Prop where
  given : name ≠ ""
  plain : ∀ c ∈ name.toList, c.isAlphanum = true

namespace TypeNode

/-- A type, its first argument, the first argument of that, and so on. -/
def spine : TypeNode → List TypeNode
  | ⟨name, [], depth⟩ => [⟨name, [], depth⟩]
  | ⟨name, first :: rest, depth⟩ => ⟨name, first :: rest, depth⟩ :: first.spine

/-- A base type or an allowed name at the head of a type. -/
def remains (ignores : List Ignore) (node : TypeNode) : Bool :=
  isBaseType node.name || isAllowed ignores node.name

theorem staysOn_name (ignores : List Ignore) (node : TypeNode) :
    staysOn ignores node.name = node.remains ignores := by
  by_cases given : node.name = ""
  · simp [staysOn, remains, isAllowed, given]
  · rw [staysOn, beq_false_of_ne given, Bool.false_or, remains]

theorem spine_cons (node : TypeNode) : ∃ inner, node.spine = node :: inner := by
  obtain ⟨name, args, depth⟩ := node
  cases args with
  | nil => exact ⟨[], by rw [spine]⟩
  | cons first rest => exact ⟨first.spine, by rw [spine]⟩

theorem mem_spine_self (node : TypeNode) : node ∈ node.spine := by
  obtain ⟨inner, way⟩ := node.spine_cons
  simp [way]

theorem Named.mono {P Q : String → Prop} (wider : ∀ name, P name → Q name) {node : TypeNode}
    (named : node.Named P) : node.Named Q := by
  induction named with
  | node own inner ih => exact .node (wider _ own) ih

theorem Named.deepen {P : String → Prop} {node : TypeNode} (named : node.Named P) (extra : Nat) :
    (node.deepen extra).Named P := by
  obtain ⟨own, inner⟩ := named
  exact .node own inner

theorem allSettled_of_forall {nodes : List TypeNode} (each : ∀ node ∈ nodes, node.Settled true) :
    AllSettled nodes := by
  induction nodes with
  | nil => trivial
  | cons node rest ih =>
      exact ⟨each node (by simp), ih fun other member => each other (by simp [member])⟩

theorem Named.settled {node : TypeNode} (named : node.Named IsWordName) (nested : Bool) :
    node.Settled nested := by
  induction named generalizing nested with
  | node own inner ih =>
      exact ⟨.of_isAlphanum own.given own.plain nested,
        allSettled_of_forall fun arg member => ih arg member true⟩

theorem allPrintAsIs_iff {nodes : List TypeNode} :
    allPrintAsIs nodes = true ↔ ∀ node ∈ nodes, node.printsAsIs = true := by
  induction nodes with
  | nil => simp [allPrintAsIs]
  | cons node rest ih => simp [allPrintAsIs, ih]

/-- What holds of a type and passes to first arguments holds on the way inwards. -/
theorem forall_spine {P : TypeNode → Prop}
    (inwards : ∀ name first rest depth, P ⟨name, first :: rest, depth⟩ → P first)
    {node : TypeNode} (whole : P node) : ∀ part ∈ node.spine, P part := by
  induction node using spine.induct with
  | case1 name depth => simpa [spine] using whole
  | case2 name first rest depth ih =>
      rw [spine, List.forall_mem_cons]
      exact ⟨whole, ih (inwards _ _ _ _ whole)⟩

theorem named_spine {P : String → Prop} {node : TypeNode} (named : node.Named P) :
    ∀ part ∈ node.spine, part.Named P := by
  refine forall_spine (fun name first rest depth whole => ?_) named
  cases whole with
  | node own inner => exact inner first (by simp)

theorem printsAsIs_spine {node : TypeNode} (asIs : node.printsAsIs = true) :
    ∀ part ∈ node.spine, part.printsAsIs = true := by
  refine forall_spine (P := fun part => part.printsAsIs = true) ?_ asIs
  intro name first rest depth whole
  rw [printsAsIs, Bool.and_eq_true] at whole
  exact allPrintAsIs_iff.mp whole.2 first (by simp)

theorem toText_ne_empty {node : TypeNode} (named : node.Named IsWordName)
    (asIs : node.printsAsIs = true) : node.toText ≠ "" := by
  obtain ⟨own, -⟩ := named
  intro empty
  rw [toText_eq asIs, String.append_eq_empty_iff, String.append_eq_empty_iff] at empty
  exact own.given empty.1.1

theorem isPlainType_toText {node : TypeNode} (named : node.Named IsWordName) :
    isPlainType node.toText = true := by
  have apart : "'\"|&\x7b\x7d();:".toList.all (!·.isAlphanum) = true := by decide
  have written : node.Named (WrittenIn (· ∉ "'\"|&\x7b\x7d();:".toList)) := by
    refine named.mono fun name word c member mark => ?_
    have other := List.all_eq_true.mp apart c mark
    rw [word.plain c member] at other
    cases other
  have printed : ∀ c ∈ "anyRecord<, >[]".toList, c ∉ "'\"|&\x7b\x7d();:".toList :=
    Text.forall_of_all (by decide)
  have text := written_render printed (fun _ own => own) written false
  rw [isPlainType, List.all_eq_true]
  intro c member
  rw [Bool.not_eq_true', List.contains_eq_mem, decide_eq_false_iff_not]
  exact text c member

end TypeNode

section Strip

variable {ignores : List Ignore} {node : TypeNode}

/-- Wrappers are taken off up to the first node that remains, which takes their array marks over. -/
theorem stripNode_spine {skipped rest : List TypeNode} {kept : TypeNode}
    (way : node.spine = skipped ++ kept :: rest)
    (skips : ∀ part ∈ skipped, part.remains ignores = false)
    (stays : kept.remains ignores = true) (extra : Nat) :
    stripNode ignores extra node =
      some (kept.deepen (extra + (skipped.map (·.arrayDepth)).sum)) := by
  induction node using TypeNode.spine.induct generalizing skipped extra with
  | case1 name depth =>
      rw [TypeNode.spine] at way
      cases skipped with
      | nil =>
          obtain ⟨rfl, -⟩ := List.cons.inj way
          rw [← TypeNode.staysOn_name] at stays
          exact stripNode_stays stays [] extra depth
      | cons part more =>
          obtain ⟨-, none⟩ := List.cons.inj way
          simp at none
  | case2 name first others depth ih =>
      rw [TypeNode.spine] at way
      cases skipped with
      | nil =>
          obtain ⟨rfl, -⟩ := List.cons.inj way
          rw [← TypeNode.staysOn_name] at stays
          exact stripNode_stays stays _ extra depth
      | cons part more =>
          obtain ⟨rfl, later⟩ := List.cons.inj way
          have own := skips _ (List.mem_cons_self ..)
          rw [← TypeNode.staysOn_name] at own
          rw [stripNode_skips own, List.head?_cons, Option.bind_some,
            ih later (fun part member => skips part (List.mem_cons_of_mem _ member)),
            List.map_cons, List.sum_cons, Nat.add_assoc]

theorem stripNode_eq_none_iff (extra : Nat) :
    stripNode ignores extra node = none ↔ ∀ part ∈ node.spine, part.remains ignores = false := by
  induction node using TypeNode.spine.induct generalizing extra with
  | case1 name depth =>
      rw [TypeNode.spine, List.forall_mem_singleton, ← TypeNode.staysOn_name]
      cases stays : staysOn ignores name with
      | true => simp [stripNode_stays stays]
      | false => simp [stripNode_skips stays]
  | case2 name first rest depth ih =>
      rw [TypeNode.spine, List.forall_mem_cons, ← TypeNode.staysOn_name]
      cases stays : staysOn ignores name with
      | true => simp [stripNode_stays stays]
      | false => simp [stripNode_skips stays, ih]

theorem stripNode_mem_spine {extra : Nat} {left : TypeNode}
    (stripped : stripNode ignores extra node = some left) :
    ∃ part ∈ node.spine, ∃ more, left = part.deepen more := by
  induction node using TypeNode.spine.induct generalizing extra with
  | case1 name depth =>
      cases stays : staysOn ignores name with
      | true =>
          rw [stripNode_stays stays] at stripped
          cases stripped
          exact ⟨_, TypeNode.mem_spine_self _, extra, rfl⟩
      | false =>
          rw [stripNode_skips stays] at stripped
          cases stripped
  | case2 name first rest depth ih =>
      cases stays : staysOn ignores name with
      | true =>
          rw [stripNode_stays stays] at stripped
          cases stripped
          exact ⟨_, TypeNode.mem_spine_self _, extra, rfl⟩
      | false =>
          rw [stripNode_skips stays] at stripped
          obtain ⟨part, inside, more, same⟩ := ih stripped
          exact ⟨part, by simp [TypeNode.spine, inside], more, same⟩

theorem stripIgnored_toText (named : node.Named IsWordName) (asIs : node.printsAsIs = true) :
    stripIgnored ignores node.toText =
      ((stripNode ignores 0 node).map TypeNode.toText).getD "" := by
  have given : (node.toText == "") = false := by simpa using TypeNode.toText_ne_empty named asIs
  cases bare : ignores.isEmpty with
  | true =>
      have stays : staysOn ignores node.name = true := by simp [staysOn, isAllowed, bare]
      obtain ⟨name, args, depth⟩ := node
      rw [stripNode_stays stays]
      simp [stripIgnored, bare]
  | false =>
      have read := parse_toText (named.settled false) asIs
      simp [stripIgnored, given, bare, TypeNode.isPlainType_toText named, read]

/-- Of the text of a tree the first node on the way inwards remains that is a base type or allowed,
with the array marks of all that is skipped behind its own; nothing remains if there is none. What
remains is left as it is. -/
theorem first_allowed_remains (named : node.Named IsWordName) (asIs : node.printsAsIs = true)
    (ignores : List Ignore) :
    (∀ skipped kept rest, node.spine = skipped ++ kept :: rest →
      (∀ part ∈ skipped, part.remains ignores = false) → kept.remains ignores = true →
      stripIgnored ignores node.toText =
        (kept.deepen (skipped.map (·.arrayDepth)).sum).toText) ∧
    (stripIgnored ignores node.toText = "" ↔
      ∀ part ∈ node.spine, part.remains ignores = false) ∧
    stripIgnored ignores (stripIgnored ignores node.toText) = stripIgnored ignores node.toText := by
  have found : ∀ skipped kept rest, node.spine = skipped ++ kept :: rest →
      (∀ part ∈ skipped, part.remains ignores = false) → kept.remains ignores = true →
      stripIgnored ignores node.toText =
        (kept.deepen (skipped.map (·.arrayDepth)).sum).toText := by
    intro skipped kept rest way skips stays
    rw [stripIgnored_toText named asIs, stripNode_spine way skips stays, Nat.zero_add]
    rfl
  by_cases nothing : ∀ part ∈ node.spine, part.remains ignores = false
  · have empty : stripIgnored ignores node.toText = "" := by
      rw [stripIgnored_toText named asIs, (stripNode_eq_none_iff 0).mpr nothing]
      rfl
    refine ⟨found, iff_of_true empty nothing, ?_⟩
    rw [empty]
    rfl
  · obtain ⟨kept, first⟩ : ∃ kept, node.spine.find? (·.remains ignores) = some kept := by
      apply Option.isSome_iff_exists.mp
      simpa using nothing
    obtain ⟨stays, skipped, rest, way, skips⟩ := List.find?_eq_some_iff_append.mp first
    have left := found skipped kept rest way (by simpa using skips) stays
    have member : kept ∈ node.spine := by simp [way]
    have inner := (TypeNode.named_spine named kept member).deepen (skipped.map (·.arrayDepth)).sum
    have printed := (TypeNode.printsAsIs_deepen kept (skipped.map (·.arrayDepth)).sum).trans
      (TypeNode.printsAsIs_spine asIs kept member)
    refine ⟨found, iff_of_false ?_ nothing, ?_⟩
    · rw [left]
      exact TypeNode.toText_ne_empty inner printed
    · obtain ⟨more, head⟩ := (kept.deepen (skipped.map (·.arrayDepth)).sum).spine_cons
      have again := @stripNode_spine ignores _ [] more _ head (by simp) stays 0
      rw [left, stripIgnored_toText inner printed, again]
      rfl

end Strip

section Users

def wrappedUsers : TypeNode := ⟨"Res", [⟨"Page", [⟨"User", [], 1⟩], 1⟩], 0⟩

def wrapperNames : List Ignore := [.name "Res", .name "Page"]

theorem named_wrappedUsers : wrappedUsers.Named IsWordName := by
  have word : ∀ name ∈ ["Res", "Page", "User"], IsWordName name := by
    intro name member
    have plain : ∀ name ∈ ["Res", "Page", "User"],
        name ≠ "" ∧ name.toList.all Char.isAlphanum = true := by decide
    exact ⟨(plain name member).1, List.all_eq_true.mp (plain name member).2⟩
  have user : (⟨"User", [], 1⟩ : TypeNode).Named IsWordName :=
    .node (word _ (by simp)) (by simp)
  have page : (⟨"Page", [⟨"User", [], 1⟩], 1⟩ : TypeNode).Named IsWordName :=
    .node (word _ (by simp)) (by simpa using user)
  exact .node (word _ (by simp)) (by simpa using page)

theorem remains_user (depth : Nat) :
    (⟨"User", [], depth⟩ : TypeNode).remains wrapperNames = true := by
  have plain : isPlainKey "User" = true := by decide
  have decoded := parse_of_plain plain (schemaKey_of_plain plain)
  simp [TypeNode.remains, isAllowed, wrapperNames, decoded, Ignore.hits, Ignore.name?]

theorem first_allowed_remains_users : wrappedUsers.Named IsWordName ∧
    wrappedUsers.printsAsIs = true ∧ wrappedUsers.toText = "Res<Page<User[]>[]>" ∧
    stripIgnored wrapperNames wrappedUsers.toText = "User[][]" ∧
    stripIgnored wrapperNames (stripIgnored wrapperNames wrappedUsers.toText) =
      stripIgnored wrapperNames wrappedUsers.toText := by
  have asIs : wrappedUsers.printsAsIs = true := by decide
  obtain ⟨found, -, again⟩ := first_allowed_remains named_wrappedUsers asIs wrapperNames
  refine ⟨named_wrappedUsers, asIs, rfl, ?_, again⟩
  have wrappers : ∀ part ∈ wrappedUsers.spine.take 2, part.remains wrapperNames = false := by
    simp [wrappedUsers, TypeNode.spine, TypeNode.remains, isAllowed, wrapperNames, Ignore.hits,
      isBaseType, baseTypes]
  exact found _ ⟨"User", [], 1⟩ [] rfl wrappers (remains_user 1)

end Users

end TypedClient

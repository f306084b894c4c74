import TypedClient.Proofs.Json.Kept
import TypedClient.Yaml.Reader

/-!
What is read from YAML is regular: all doubles come from rounding, and entries are put into an
object one after the other. That scalars are regular is an invariant of the search for the meanings
of the nodes.
-/

namespace TypedClient

namespace Binary64

theorem canonical_ofScaled (negative : Bool) (mantissa : Nat) (exponent : Int) :
    (ofScaled negative mantissa exponent).Canonical := by
  unfold ofScaled
  split
  · exact canonical_ofQuotient negative (by decide)
  · exact canonical_ofQuotient negative (power_pos (by decide) _)

theorem canonical_add (x y : Binary64) : (x.add y).Canonical := by
  unfold add
  split
  · exact canonical_ofScaled _ _ _
  · split <;> trivial
  all_goals trivial

theorem canonical_negate {x : Binary64} (canonical : x.Canonical) : x.negate.Canonical := by
  cases x with
  | finite negative mantissa exponent => exact canonical
  | infinite negative => trivial
  | nan => trivial

end Binary64

theorem canonical_readUnsigned? {negative : Bool} {body : List Char} {x : Binary64}
    (found : readUnsigned? negative body = some x) : x.Canonical := by
  unfold readUnsigned? at found
  split at found
  · cases found
    trivial
  · cases found
    trivial
  · cases found
    trivial
  · dsimp only at found
    split at found
    all_goals
      split at found
      · cases found
      · obtain ⟨exponent, -, made⟩ := Option.map_eq_some_iff.mp found
        rw [← made]
        exact Binary64.canonical_ofDecimal _ _ _

theorem canonical_readDecimal? {text : List Char} {x : Binary64}
    (found : readDecimal? text = some x) : x.Canonical := by
  obtain ⟨plain, -, found⟩ := Option.bind_eq_some_iff.mp found
  exact canonical_readUnsigned? found

namespace Yaml

theorem canonical_addSixties {sum : Binary64} {unit : Nat} {parts : List Binary64} {x : Binary64}
    (canonical : sum.Canonical) (added : addSixties sum unit parts = .ok x) : x.Canonical := by
  induction parts generalizing sum unit with
  | nil =>
      cases added
      exact canonical
  | cons part rest ih =>
      rw [addSixties] at added
      split at added
      · exact ih (Binary64.canonical_add _ _) added
      · cases added

theorem canonical_readPart {text : List Char} {x : Binary64} (read : readPart text = .ok x) :
    x.Canonical := by
  unfold readPart at read
  split at read
  · cases read
    exact canonical_readDecimal? ‹_›
  · cases read

theorem canonical_readFloat {text : List Char} {x : Binary64} (read : readFloat text = .ok x) :
    x.Canonical := by
  unfold readFloat at read
  obtain ⟨⟨negative, rest⟩, -, read⟩ := (bind_eq_ok _ _ _).mp read
  dsimp only at read
  split at read
  · cases read
    trivial
  · split at read
    · cases read
      trivial
    · have signed {size : Binary64} (canonical : size.Canonical)
          (made : (pure (if negative = true then size.negate else size) : Except Problem Binary64) =
            .ok x) : x.Canonical := by
        cases made
        split
        · exact Binary64.canonical_negate canonical
        · exact canonical
      split at read
      · obtain ⟨size, part, made⟩ := (bind_eq_ok _ _ _).mp read
        exact signed (canonical_readPart part) made
      · obtain ⟨parts, -, read⟩ := (bind_eq_ok _ _ _).mp read
        obtain ⟨size, added, made⟩ := (bind_eq_ok _ _ _).mp read
        exact signed (canonical_addSixties (Binary64.canonical_ofQuotient _ (by decide)) added) made

/-- A meaning whose own scalars are regular. -/
def Meaning.Regular : Meaning → Prop
  | scalar value => value.Regular
  | object entries => ∀ entry ∈ entries, entry.1.Regular
  | _ => True

/-- All that is known is regular. -/
def Meanings.Regular (meanings : Meanings) : Prop :=
  ∀ id meaning, meanings.known.getD id none = some meaning → meaning.Regular

def Keeps {α : Type} (P : α → Prop) (search : Finding α) : Prop :=
  ∀ before found after, search.run before = .ok (found, after) → before.Regular →
    after.Regular ∧ P found

abbrev Harmless {α : Type} (search : Finding α) : Prop := Keeps (fun _ => True) search

section Keeps

variable {α β : Type} {P : α → Prop} {Q : β → Prop} {search : Finding α} {next : α → Finding β}

theorem keeps_pure {found : α} (own : P found) : Keeps P (pure found) := by
  intro before value after ran regular
  cases ran
  exact ⟨regular, own⟩

theorem Keeps.bind (first : Keeps P search) (later : ∀ found, P found → Keeps Q (next found)) :
    Keeps Q (search >>= next) := by
  intro before value after ran regular
  rw [StateT.run_bind] at ran
  obtain ⟨⟨found, between⟩, begun, ran⟩ := (bind_eq_ok _ _ _).mp ran
  obtain ⟨kept, own⟩ := first _ _ _ begun regular
  exact later found own _ _ _ ran kept

theorem Keeps.then {other : Finding β} (first : Keeps P search) (later : Keeps Q other) :
    Keeps Q (search >>= fun _ => other) :=
  first.bind fun _ _ => later

theorem keeps_throw (problem : Problem) : Keeps P (throw problem) := by
  intro before value after ran
  cases ran

theorem keeps_lift {source : Except Problem α} (own : ∀ value, source = .ok value → P value) :
    Keeps P (liftM source) := by
  intro before value after ran regular
  obtain ⟨found, read, ran⟩ := (bind_eq_ok _ _ _).mp ran
  cases ran
  exact ⟨regular, own _ read⟩

theorem keeps_get : Keeps Meanings.Regular get := by
  intro before value after ran regular
  cases ran
  exact ⟨regular, regular⟩

theorem keeps_modify {change : Meanings → Meanings}
    (kept : ∀ meanings, meanings.Regular → (change meanings).Regular) :
    Harmless (modify change) := by
  intro before value after ran regular
  cases ran
  exact ⟨kept _ regular, trivial⟩

theorem keeps_mapM {items : List α} {f : α → Finding β} (each : ∀ item ∈ items, Keeps Q (f item)) :
    Keeps (fun found => ∀ own ∈ found, Q own) (items.mapM f) := by
  induction items with
  | nil => exact keeps_pure (by simp)
  | cons item rest ih =>
      rw [List.mapM_cons]
      refine (each item (by simp)).bind fun own fits => ?_
      refine (ih fun other member => each other (by simp [member])).bind fun others fit => ?_
      exact keeps_pure (List.forall_mem_cons.mpr ⟨fits, fit⟩)

theorem keeps_forM {items : List α} {f : α → Finding PUnit}
    (each : ∀ item ∈ items, Harmless (f item)) :
    Harmless (items.forM f) := by
  induction items with
  | nil => exact keeps_pure trivial
  | cons item rest ih =>
      exact (each item (by simp)).bind fun _ _ =>
        ih fun other member => each other (by simp [member])

theorem keeps_filterM {items : List α} {f : α → Finding Bool}
    (each : ∀ item, Harmless (f item)) : Harmless (items.filterM f) := by
  have gathered (found : List α) : Harmless (items.filterAuxM f found) := by
    induction items generalizing found with
    | nil => exact keeps_pure trivial
    | cons item rest ih => exact (each item).bind fun _ _ => ih _
  exact (gathered []).bind fun _ _ => keeps_pure trivial

theorem keeps_findM {items : List α} {f : α → Finding Bool}
    (each : ∀ item, Harmless (f item)) :
    Harmless (items.findM? f) := by
  induction items with
  | nil => exact keeps_pure trivial
  | cons item rest ih =>
      rw [List.findM?]
      refine (each item).bind fun held _ => ?_
      cases held with
      | true => exact keeps_pure trivial
      | false => exact ih

end Keeps

namespace Meanings

theorem keeps_nodeAt (id : Nat) : Harmless (nodeAt id) :=
  keeps_get.bind fun _ _ => keeps_pure trivial

theorem keeps_setNode (id : Nat) (change : Node → Node) : Harmless (setNode id change) :=
  keeps_modify fun _ regular => regular

theorem keeps_learn (id : Nat) {meaning : Meaning} (own : meaning.Regular) :
    Harmless (learn id meaning) := by
  refine keeps_modify fun meanings regular => ?_
  intro other known found
  rw [Array.getD_eq_getD_getElem?, Array.getElem?_setIfInBounds] at found
  split at found
  · split at found
    · cases found
      exact own
    · cases found
  · rw [← Array.getD_eq_getD_getElem?] at found
    exact regular other known found

theorem keeps_textAt (fuel id : Nat) : Harmless (textAt fuel id) := by
  induction fuel generalizing id with
  | zero =>
      rw [textAt]
      exact keeps_throw _
  | succ fuel ih =>
      rw [textAt]
      refine (keeps_nodeAt id).bind fun node _ => ?_
      dsimp only
      split
      · exact keeps_pure trivial
      · exact keeps_throw _
      · refine Keeps.bind (keeps_findM fun pair => ?_) fun found _ => ?_
        · exact (keeps_nodeAt pair.1).bind fun _ _ => keeps_pure trivial
        · split
          · exact ih _
          · exact keeps_throw _

theorem keeps_scalarAt (id : Nat) : Keeps Scalar.Regular (scalarAt id) := by
  have text : Harmless (do textAt (← get).nodes.size id) :=
    keeps_get.bind fun _ _ => keeps_textAt _ _
  refine (keeps_nodeAt id).bind fun node _ => ?_
  dsimp only
  split
  · have read : Harmless (discard (do textAt (← get).nodes.size id)) :=
      text.bind fun _ _ => keeps_pure trivial
    exact read.then (keeps_pure trivial)
  · refine text.bind fun word _ => ?_
    split
    · exact keeps_pure trivial
    · exact keeps_throw _
  · refine text.bind fun word _ => (keeps_lift (P := fun _ => True) fun _ _ => trivial).bind
      fun _ _ => keeps_pure trivial
  · exact text.bind fun word _ => (keeps_lift fun x read => canonical_readFloat read).bind
      fun x canonical => keeps_pure canonical
  · exact text.bind fun word _ => keeps_pure trivial
  · refine text.bind fun word _ => ?_
    split
    · exact (keeps_lift (P := fun _ => True) fun _ _ => trivial).bind fun _ _ => keeps_pure trivial
    · exact keeps_throw _
  · refine text.bind fun word _ => ?_
    split
    · exact keeps_pure trivial
    · exact keeps_throw _
  · exact keeps_throw _

theorem keeps_meet (id : Nat) : Harmless (meet id) := by
  have collection : Harmless (do
      learn id (.list [])
      modify fun s => { s with waiting := id :: s.waiting }) :=
    (@keeps_learn id (.list []) trivial).then (keeps_modify fun _ regular => regular)
  unfold meet
  refine keeps_get.bind fun meanings _ => ?_
  split
  · exact keeps_pure trivial
  · refine (keeps_nodeAt id).bind fun node _ => ?_
    split
    · exact collection
    · exact collection
    · exact collection
    · exact collection
    · exact (keeps_scalarAt id).bind fun value regular => keeps_learn id regular

theorem keeps_merging (fuel : Nat) : (∀ id, Harmless (mergeInto id fuel)) ∧
    ∀ start id, Harmless (mergedFrom start id fuel) := by
  have asked (id : Nat) (test : Node → Bool) : Harmless (do return test (← nodeAt id)) :=
    (keeps_nodeAt id).bind fun _ _ => keeps_pure trivial
  induction fuel with
  | zero =>
      constructor
      · intro id
        rw [mergeInto]
        exact keeps_pure trivial
      · intro start id
        rw [mergedFrom]
        exact keeps_pure trivial
  | succ fuel ih =>
      constructor
      · intro id
        rw [mergeInto]
        refine (keeps_nodeAt id).bind fun node _ => ?_
        split
        · refine Keeps.bind (keeps_filterM fun pair => asked pair.1 _) fun merges _ => ?_
          refine Keeps.bind (keeps_filterM fun pair => asked pair.1 _) fun own _ => ?_
          refine Keeps.then (P := fun _ => True) (keeps_forM fun pair _ => ?_) ?_
          · refine (keeps_nodeAt pair.1).bind fun key _ => ?_
            split
            · exact keeps_setNode _ _
            · exact keeps_pure trivial
          · split
            · exact keeps_pure trivial
            · refine (keeps_setNode _ _).then ?_
              refine Keeps.bind (keeps_mapM fun pair _ => ih.2 node.start pair.2) fun merged _ => ?_
              exact (keeps_setNode _ _).then (keeps_pure trivial)
        · exact keeps_pure trivial
      · intro start id
        rw [mergedFrom]
        refine (keeps_nodeAt id).bind fun node _ => ?_
        split
        · exact ih.1 id
        · refine Keeps.bind (keeps_mapM (Q := fun _ => True) fun item _ => ?_) fun parts _ =>
            keeps_pure trivial
          refine (keeps_nodeAt item).bind fun part _ => ?_
          split
          · exact ih.1 item
          · exact keeps_throw _
        · exact keeps_throw _

theorem keeps_entryAt (start : Mark) (pair : Nat × Nat) :
    Keeps (fun entry => entry.1.Regular) (entryAt start pair) := by
  refine (keeps_meet pair.1).then (keeps_get.bind fun meanings regular => ?_)
  split
  · rename_i key known
    exact (keeps_meet pair.2).then (keeps_pure (regular _ _ known))
  · exact (keeps_nodeAt pair.1).bind fun _ _ => keeps_throw _

theorem keeps_singlePair (start : Mark) (id : Nat) : Harmless (singlePair start id) := by
  refine (keeps_nodeAt id).bind fun node _ => ?_
  dsimp only
  split
  · exact (keeps_meet _).then ((keeps_meet _).then (keeps_pure trivial))
  · exact keeps_throw _
  · exact keeps_throw _

theorem keeps_collectionAt (id : Nat) : Keeps Meaning.Regular (collectionAt id) := by
  refine (keeps_nodeAt id).bind fun node _ => ?_
  split
  · exact (keeps_forM fun item _ => keeps_meet item).then (keeps_pure trivial)
  · exact keeps_throw _
  · exact Keeps.bind (keeps_mapM fun item _ => keeps_singlePair _ item)
      fun _ _ => keeps_pure trivial
  · exact keeps_throw _
  · refine keeps_get.bind fun meanings _ => ((keeps_merging _).1 id).bind fun pairs _ => ?_
    refine Keeps.bind (keeps_mapM fun pair _ => keeps_entryAt node.start pair)
      fun entries each => ?_
    apply keeps_pure
    split
    · trivial
    · exact each
  · exact keeps_throw _

theorem keeps_readWaiting (fuel : Nat) : Harmless (readWaiting fuel) := by
  induction fuel with
  | zero =>
      rw [readWaiting]
      exact keeps_pure trivial
  | succ fuel ih =>
      rw [readWaiting]
      refine keeps_get.bind fun meanings _ => ?_
      dsimp only
      split
      · exact keeps_pure trivial
      · refine Keeps.then (P := fun _ => True) ?_ (Keeps.then (keeps_forM fun id _ => ?_) ih)
        · exact keeps_modify fun _ regular => regular
        · exact (keeps_collectionAt id).bind fun meaning regular => keeps_learn id regular

theorem regular_valueAt {known : Array (Option Meaning)}
    (regular : ∀ id meaning, known.getD id none = some meaning → meaning.Regular)
    (path : List Nat) (id fuel : Nat) : (valueAt known path id fuel).Regular := by
  induction fuel generalizing path id with
  | zero =>
      rw [valueAt]
      exact .scalar trivial
  | succ fuel ih =>
      rw [valueAt]
      dsimp only
      split
      · exact .scalar trivial
      · split
        · exact .scalar trivial
        · rename_i value found
          have own : (Meaning.scalar value).Regular := regular id _ found
          exact .scalar own
        · exact .list (List.forall_mem_map.mpr fun item _ => ih _ item)
        · refine .list (List.forall_mem_map.mpr fun entry _ => .list ?_)
          exact List.forall_mem_cons.mpr ⟨ih _ _, List.forall_mem_singleton.mpr (ih _ _)⟩
        · rename_i entries found
          have keys : ∀ entry ∈ entries, entry.1.Regular := regular id _ found
          have all := @Entries.forall_insertAll [] (entries.map fun entry =>
              (entry.1, valueAt known (id :: path) entry.2 fuel)) Scalar.Regular Value.Regular
            (by simp) (List.forall_mem_map.mpr fun entry member => ⟨keys entry member, ih _ _⟩)
          exact .object (Entries.distinct_insertAll .nil _)
            (fun entry member => (all entry member).1)
            fun entry member => (all entry member).2
        · exact .scalar trivial

end Meanings

theorem regular_valueOf {root : Nat} {nodes : Array Node} {value : Value}
    (found : valueOf root nodes = .ok value) : value.Regular := by
  obtain ⟨⟨_, meanings⟩, ran, made⟩ := (bind_eq_ok _ _ _).mp found
  cases made
  have search : Harmless (do
      Meanings.meet root
      Meanings.readWaiting (nodes.size + 1)) :=
    (Meanings.keeps_meet root).then (Meanings.keeps_readWaiting _)
  refine Meanings.regular_valueAt (search _ _ _ ran ?_).1 _ _ _
  intro id meaning known
  rw [Array.getD_eq_getD_getElem?, Array.getElem?_replicate] at known
  split at known <;> cases known

theorem regular_read {text : String} {value : Value} (found : read text = .ok value) :
    value.Regular := by
  unfold read at found
  dsimp only at found
  split at found
  · cases found
  · obtain ⟨listed, -, found⟩ := (bind_eq_ok _ _ _).mp found
    split at found
    · cases found
      exact .scalar trivial
    · exact regular_valueOf found

end Yaml

end TypedClient

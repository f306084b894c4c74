import TypedClient.Json.Break
import TypedClient.Proofs.Json.Read
import TypedClient.Proofs.Text.Block
import TypedClient.Proofs.Workspace

namespace TypedClient

namespace Json

section Return

theorem return_not_mem_escapedChar (c : Char) : '\r' ∉ escapedChar c := by
  have codes : ∀ code < 32, '\r' ∉ Text.hexCode 4 code := by decide
  unfold escapedChar
  split_ifs with quoted feed mark tab back form control
  · rcases (Bool.or_eq_true _ _).mp quoted with quote | slash
    · rw [beq_iff_eq.mp quote]
      decide
    · rw [beq_iff_eq.mp slash]
      decide
  · decide
  · decide
  · decide
  · decide
  · decide
  · simpa using codes c.toNat control
  · simpa using Ne.symm (by simpa using mark)

theorem return_not_mem_writeText (s : String) : '\r' ∉ (writeText s).toList := by
  rw [writeText, String.toList_ofList]
  simp [return_not_mem_escapedChar]

theorem return_not_mem_writeScalar {s : Scalar} (own : s.Spellable) :
    '\r' ∉ (writeScalar s).toList := by
  have word {text : List Char} {value : Scalar} (atom : IsAtom text value) : '\r' ∉ text :=
    fun member => absurd (List.all_eq_true.mp atom.spelled _ member) (by decide)
  cases s with
  | null => decide
  | bool b => cases b <;> decide
  | int n => exact word (isAtom_int own)
  | float x => exact word (isAtom_float own)
  | text s => exact return_not_mem_writeText s
  | foreign value => exact own.elim

theorem return_not_mem_lineStart (depth : Nat) : '\r' ∉ (lineStart depth).toList := by
  simp [lineStart]

theorem return_not_mem_writeBlock {opening closing : String} {texts : List String} (depth : Nat)
    (opens : '\r' ∉ opening.toList) (closes : '\r' ∉ closing.toList)
    (each : ∀ text ∈ texts, '\r' ∉ text.toList) :
    '\r' ∉ (writeBlock opening closing depth texts).toList := by
  have joined (separator : String) (plain : '\r' ∉ separator.toList) :
      '\r' ∉ (separator.intercalate texts).toList := by
    induction texts with
    | nil => simp
    | cons first rest ih =>
        have own := each first (by simp)
        have later := ih fun text member => each text (by simp [member])
        cases rest with
        | nil => simpa using own
        | cons next others =>
            rw [String.intercalate_cons_cons]
            simp only [String.toList_append, List.mem_append, own, plain, later, or_self,
              not_false_eq_true]
  have starts := return_not_mem_lineStart
  unfold writeBlock
  split
  · simp [opens, closes]
  · have inner := joined ("," ++ lineStart (depth + 1)) (by simp [starts])
    simp only [String.toList_append, List.mem_append, opens, closes, starts, inner, or_self,
      not_false_eq_true]

theorem prettyItems_eq (depth : Nat) (items : List Value) :
    prettyItems depth items = items.map (pretty depth) := by
  induction items with
  | nil => rfl
  | cons item rest ih => rw [prettyItems, ih, List.map_cons]

theorem prettyEntries_eq (depth : Nat) (entries : Entries) :
    prettyEntries depth entries = entries.map (prettyEntry depth) := by
  induction entries with
  | nil => rfl
  | cons entry rest ih => rw [prettyEntries, ih, List.map_cons]

theorem return_not_mem_pretty {value : Value} (spellable : value.Spellable) (depth : Nat) :
    '\r' ∉ (pretty depth value).toList := by
  induction spellable generalizing depth with
  | scalar own => exact return_not_mem_writeScalar own
  | list each ih =>
      refine return_not_mem_writeBlock depth (by decide) (by decide) ?_
      rw [prettyItems_eq]
      exact List.forall_mem_map.mpr fun item member => ih item member (depth + 1)
  | object distinct named each ih =>
      refine return_not_mem_writeBlock depth (by decide) (by decide) ?_
      rw [prettyEntries_eq]
      rw [List.forall_mem_map]
      rintro ⟨key, value⟩ member
      have start := return_not_mem_writeText (scalarText key)
      have inner := ih (key, value) member (depth + 1)
      simp only [prettyEntry, String.toList_append, List.mem_append, writeKey, start, inner,
        or_false, false_or]
      decide

theorem read_reread_pretty {value : Value} (spellable : value.Spellable) (depth : Nat) :
    read (reread (pretty depth value)) = some value := by
  have plain := return_not_mem_pretty spellable depth
  have same := Text.unifyBreaks_append_of_no_return plain []
  rw [List.append_nil, Text.unifyBreaks, List.append_nil] at same
  rw [reread, same, String.ofList_toList, read_pretty spellable]

end Return

end Json

/-- A scalar in the form of its kind. -/
def Scalar.Regular : Scalar → Prop
  | .float x => x.Canonical
  | _ => True

/-- A value of scalars in the form of their kinds, with different keys in each object. -/
inductive Value.Regular : Value → Prop
  | scalar {s : Scalar} (own : s.Regular) : Regular (.scalar s)
  | list {items : List Value} (each : ∀ item ∈ items, Regular item) : Regular (.list items)
  | object {entries : Entries} (distinct : entries.Distinct)
      (keys : ∀ entry ∈ entries, entry.1.Regular) (each : ∀ entry ∈ entries, Regular entry.2) :
      Regular (.object entries)

/-- All keys, at every depth, are texts. -/
inductive Value.TextKeyed : Value → Prop
  | scalar (s : Scalar) : TextKeyed (.scalar s)
  | list {items : List Value} (each : ∀ item ∈ items, TextKeyed item) : TextKeyed (.list items)
  | object {entries : Entries} (named : ∀ entry ∈ entries, ∃ name, entry.1 = .text name)
      (each : ∀ entry ∈ entries, TextKeyed entry.2) : TextKeyed (.object entries)

theorem Value.Spellable.textKeyed {value : Value} (spellable : value.Spellable) :
    value.TextKeyed := by
  induction spellable with
  | scalar own => exact .scalar _
  | list each ih => exact .list ih
  | object distinct named each ih => exact .object named ih

theorem Scalar.Spellable.regular {s : Scalar} (spellable : s.Spellable) : s.Regular := by
  cases s with
  | float x => exact spellable
  | _ => trivial

theorem Value.Spellable.regular {value : Value} (spellable : value.Spellable) :
    value.Regular := by
  induction spellable with
  | scalar own => exact .scalar own.regular
  | list each ih => exact .list ih
  | object distinct named each ih =>
      refine .object distinct (fun entry member => ?_) ih
      obtain ⟨name, key⟩ := named entry member
      rw [key]
      trivial

namespace Json

theorem spellable_of_regular {s : Scalar} (regular : s.Regular)
    (whole : scalarFault? s = none) : s.Spellable := by
  cases s with
  | float x => exact regular
  | int n =>
      have short : ¬Binary64.power 10 digitLimit ≤ n.natAbs := by
        intro long
        rw [scalarFault?, if_pos long] at whole
        exact Option.some_ne_none _ whole
      rw [Binary64.power_natCast] at short
      exact not_le.mp short
  | foreign value => cases value <;> cases whole
  | _ => trivial

theorem breakInItems_none {depth : Nat} {before separator : String} {items : List Value}
    (whole : breakInItems depth before separator items = none) :
    ∀ item ∈ items, breakIn depth item = none := by
  induction items generalizing before separator with
  | nil => simp
  | cons item rest ih =>
      rw [breakInItems] at whole
      split at whole
      · cases whole
      · exact List.forall_mem_cons.mpr ⟨‹_›, ih whole⟩

theorem breakInEntries_none {depth : Nat} {before separator : String} {entries : Entries}
    (whole : breakInEntries depth before separator entries = none) :
    ∀ entry ∈ entries, scalarFault? entry.1 = none ∧ breakIn depth entry.2 = none := by
  induction entries generalizing before separator with
  | nil => simp
  | cons entry rest ih =>
      rw [breakInEntries] at whole
      split at whole
      · cases whole
      · rename_i own
        refine List.forall_mem_cons.mpr ⟨?_, ih whole⟩
        obtain ⟨key, value⟩ := entry
        rw [breakInEntry] at own
        split at own
        · cases own
        · exact ⟨‹_›, Option.map_eq_none_iff.mp own⟩

/-- What is regular, has texts as keys and has a text as a whole is spelled by it. -/
theorem spellable_of_whole {value : Value} (regular : value.Regular) (keyed : value.TextKeyed)
    {depth : Nat} (whole : breakIn depth value = none) : value.Spellable := by
  induction regular generalizing depth with
  | scalar own =>
      rw [breakIn, Option.map_eq_none_iff] at whole
      exact .scalar (spellable_of_regular own whole)
  | list each ih =>
      cases keyed with
      | list keyed =>
        exact .list fun item member =>
          ih item member (keyed item member) (breakInItems_none whole item member)
  | object distinct keys each ih =>
      cases keyed with
      | object named keyed =>
        exact .object distinct named fun entry member =>
          ih entry member (keyed entry member) (breakInEntries_none whole entry member).2

end Json

end TypedClient

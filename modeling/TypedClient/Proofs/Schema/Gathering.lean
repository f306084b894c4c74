import TypedClient.Proofs.Distinct
import TypedClient.Proofs.Schema.Local
import TypedClient.Proofs.Value.Entries

namespace TypedClient

section Required

variable {names others more rest front back : List Value} {distinct part : List Scalar}

theorem distinctScalars_eq_ok : distinctScalars names = .ok distinct ↔
    ∃ scalars : List Scalar, names = scalars.map .scalar ∧
      scalars.eraseDupsBy Scalar.same = distinct := by
  unfold distinctScalars
  simp only [bind_eq_ok, pure_eq_ok, mapM_eq_ok]
  refine exists_congr fun scalars => and_congr_left fun _ => ?_
  rw [← List.forall₂_eq_eq_eq, List.forall₂_map_right_iff]
  constructor
  · intro read
    refine read.imp fun name scalar held => ?_
    cases name with
    | scalar own => rw [Except.ok.inj held]
    | _ => cases held
  · intro read
    refine read.imp fun name scalar held => ?_
    rw [held]

theorem distinctScalars_around :
    distinctScalars (front ++ part.map .scalar ++ back) = .ok distinct ↔
    ∃ before after : List Scalar, front = before.map .scalar ∧ back = after.map .scalar ∧
      (before ++ part ++ after).eraseDupsBy Scalar.same = distinct := by
  have injective : Function.Injective Value.scalar := fun _ _ same => Value.scalar.inj same
  rw [distinctScalars_eq_ok]
  constructor
  · rintro ⟨scalars, whole, same⟩
    obtain ⟨middle, after, rfl, inner, rfl⟩ := List.append_eq_map_iff.mp whole
    obtain ⟨before, own, rfl, rfl, same'⟩ := List.append_eq_map_iff.mp inner.symm
    rw [List.map_injective_iff.mpr injective same'] at same
    exact ⟨before, after, rfl, rfl, same⟩
  · rintro ⟨before, after, rfl, rfl, same⟩
    exact ⟨before ++ part ++ after, by simp, same⟩

def AlikeRequired (names others : List Value) : Prop :=
  ∀ front back distinct, distinctScalars (front ++ names ++ back) = .ok distinct ↔
    distinctScalars (front ++ others ++ back) = .ok distinct

namespace AlikeRequired

theorem refl (names : List Value) : AlikeRequired names names := fun _ _ _ => .rfl

theorem trans (first : AlikeRequired names others) (second : AlikeRequired others more) :
    AlikeRequired names more :=
  fun front back distinct => (first front back distinct).trans (second front back distinct)

theorem append (first : AlikeRequired names others) (second : AlikeRequired more rest) :
    AlikeRequired (names ++ more) (others ++ rest) := by
  intro front back distinct
  have left := first front (more ++ back) distinct
  have right := second (front ++ others) back distinct
  simp only [List.append_assoc] at left right ⊢
  exact left.trans right

theorem of_distinct (found : distinctScalars names = .ok distinct) :
    AlikeRequired (distinct.map .scalar) names := by
  obtain ⟨scalars, rfl, rfl⟩ := distinctScalars_eq_ok.mp found
  intro front back listed
  simp only [distinctScalars_around, eraseDupsBy_part Scalar.same_congr]

end AlikeRequired

end Required

namespace Members

/-- What an object brings along itself. -/
def own (holder : Entries) : Except Error Members := add {} (.object holder)

/-- What stands under a key in the last of the members that have it. -/
def lastValue? (gathered : List Members) (key : Scalar) : Option Value :=
  gathered.reverse.findSome? fun members => Entries.valueAt? members.properties key

/-- Members that come to others: the last value under a key counts, and required names are listed
one after another. -/
structure Gathers (before : Members) (gathered : List Members) (after : Members) : Prop where
  value : ∀ key, Entries.valueAt? after.properties key =
    (lastValue? gathered key).or (Entries.valueAt? before.properties key)
  required : AlikeRequired after.required (before.required ++ gathered.flatMap (·.required))
  distinct : Entries.Distinct before.properties → Entries.Distinct after.properties

variable {before between after brought : Members} {first second : List Members} {holder : Entries}

theorem add_object : before.add (.object holder) = .ok after ↔ ∃ properties required,
    entriesOf (Entries.field holder "properties") = .ok properties ∧
    (Entries.field holder "required").givenElements = .ok required ∧
    ⟨Entries.insertAll before.properties properties, before.required ++ required⟩ = after := by
  simp only [add, bind_eq_ok, pure_eq_ok]
  tauto

namespace Gathers

theorem refl (members : Members) : Gathers members [] members where
  value _ := rfl
  required := by simpa using AlikeRequired.refl members.required
  distinct := id

theorem trans (front : Gathers before first between) (back : Gathers between second after) :
    Gathers before (first ++ second) after where
  value key := by
    rw [back.value, front.value, lastValue?, lastValue?, lastValue?, List.reverse_append,
      List.findSome?_append, Option.or_assoc]
  required := by
    rw [List.flatMap_append, ← List.append_assoc]
    exact back.required.trans (front.required.append (.refl _))
  distinct := back.distinct ∘ front.distinct

theorem of_add (added : before.add (.object holder) = .ok after) :
    ∃ brought, own holder = .ok brought ∧ Gathers before [brought] after := by
  obtain ⟨properties, required, listed, named, rfl⟩ := add_object.mp added
  refine ⟨_, add_object.mpr ⟨properties, required, listed, named, rfl⟩, ?_, ?_, ?_⟩
  · intro key
    simp only [lastValue?, List.reverse_singleton, List.findSome?_singleton]
    exact Entries.valueAt?_insertAll before.properties properties key
  · simpa using AlikeRequired.refl (before.required ++ required)
  · exact fun distinct => Entries.distinct_insertAll distinct properties

end Gathers

end Members

section Flattening

open Members

variable {remaining : Schemas} {entries : Entries} {part value : Value} {parts rest : List Value}
  {members gathered before after : Members} {merged : Value} {distinct : List Scalar}

theorem gatherParts_nil : gatherParts remaining [] members = .ok members := by
  rw [gatherParts]

theorem gatherParts_none : gatherParts remaining [] = pure := funext fun _ => gatherParts_nil

theorem gatherParts_cons : gatherParts remaining (part :: rest) members =
    gatherParts remaining [part] members >>= gatherParts remaining rest := by
  cases held : part.ref? with
  | none =>
      rw [gatherParts_own held, gatherParts_own held, gatherParts_none]
      simp only [bind_assoc, pure_bind]
  | some value =>
      cases read : value.toText with
      | error failure =>
          rw [gatherParts_broken held read, gatherParts_broken held read]
          rfl
      | ok ref =>
          obtain rfl : value = .text ref := by
            unfold Value.toText at read
            split at read <;> cases read
            rfl
          cases found : remaining.find? (schemaKey ref) with
          | none =>
              rw [gatherParts_absent held found, gatherParts_absent held found, gatherParts_none]
              rfl
          | some target =>
              rw [gatherParts_opened held found, gatherParts_opened held found, gatherParts_none]
              simp only [bind_assoc, pure_bind]

theorem add_without : before.add (.object (Entries.without entries "allOf")) =
    before.add (.object entries) := by
  simp only [add, Entries.field, Entries.find_without_of_ne entries
    (by decide : "allOf" ≠ "properties"),
    Entries.find_without_of_ne entries (by decide : "allOf" ≠ "required")]

theorem flattenIn_merged (listed : Entries.find? entries "allOf" = some (.list parts))
    (needed : needsMerge entries parts = true) :
    flattenIn remaining (.object entries) =
      gatherParts remaining parts {} >>= fun gathered =>
        gathered.add (.object entries) >>= withMembers entries := by
  rw [flattenIn]
  split
  · rename_i others found
    cases listed.symm.trans found
    simp only [if_pos needed, add_without]
  · rename_i other
    exact absurd listed (other parts)

theorem flattenIn_kept (kept : ∀ parts, Entries.find? entries "allOf" = some (.list parts) →
    needsMerge entries parts = false) :
    flattenIn remaining (.object entries) = .ok (.object entries) := by
  rw [flattenIn]
  split
  · rename_i parts found
    rw [kept parts found, if_neg Bool.false_ne_true]
  · rfl

/-- What is merged holds the gathered properties, and the required names without doubles. -/
theorem of_withMembers {names : List Value} (merges : withMembers entries gathered = .ok merged)
    (named : (Entries.field entries "required").givenElements = .ok names)
    (last : gathered.required = before.required ++ names) :
    ∃ flat distinct, merged = .object flat ∧ distinctScalars gathered.required = .ok distinct ∧
      Entries.field flat "properties" = .object gathered.properties ∧
      (Entries.field flat "required").givenElements = .ok (distinct.map .scalar) := by
  have properties := properties_withMembers merges
  unfold withMembers at merges
  simp only [bind_eq_ok, pure_eq_ok] at merges
  obtain ⟨distinct, found, rfl⟩ := merges
  refine ⟨_, distinct, rfl, found, properties, ?_⟩
  cases distinct with
  | nil =>
      -- nothing is required, so what the schema itself requires stays in its place
      obtain ⟨scalars, listed, none⟩ := distinctScalars_eq_ok.mp found
      have nothing : scalars = [] := by
        cases scalars with
        | nil => rfl
        | cons first rest => simp [List.eraseDupsBy_cons] at none
      rw [nothing, last, List.map_nil, List.append_eq_nil_iff] at listed
      rw [listed.2] at named
      rw [List.isEmpty_nil, if_pos rfl, Entries.field, Entries.find_insert_of_ne _ _ (by decide),
        Entries.find_without_of_ne _ (by decide)]
      exact named
  | cons first rest =>
      rw [List.isEmpty_cons, if_neg Bool.false_ne_true, Entries.field, Entries.find_insert_self]
      rfl

end Flattening

end TypedClient

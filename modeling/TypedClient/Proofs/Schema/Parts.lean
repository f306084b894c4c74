import TypedClient.Interface.Model
import TypedClient.Proofs.Outcome

namespace TypedClient

/-- A property of values that holds of the parts of a value if it holds of the value, and where
there is none. -/
structure PassesDown (P : Value → Prop) : Prop where
  null : P .null
  item : ∀ {items}, P (.list items) → ∀ item ∈ items, P item
  entry : ∀ {entries}, P (.object entries) → ∀ entry ∈ entries, P entry.2

/-- A property of parts that scalars have, so that those read out of a text or of a key have it. -/
structure Hereditary (P : Value → Prop) : Prop extends PassesDown P where
  scalar : ∀ s, P (.scalar s)
  null := scalar .null

namespace PassesDown

variable {P : Value → Prop} (passes : PassesDown P)

include passes

theorem find {entries : Entries} {name : String} {value : Value} (whole : P (.object entries))
    (found : Entries.find? entries name = some value) : P value :=
  passes.entry whole _ (Entries.mem_of_find? found)

theorem field {entries : Entries} (whole : P (.object entries)) (name : String) :
    P (Entries.field entries name) := by
  unfold Entries.field
  cases found : Entries.find? entries name with
  | none => exact passes.null
  | some value => exact passes.find whole found

theorem variants {entries : Entries} {name : String} {variants : List Value}
    (whole : P (.object entries)) (found : variantsUnder? entries name = some variants) :
    ∀ variant ∈ variants, P variant := by
  unfold variantsUnder? at found
  split at found
  · rename_i held
    cases found
    exact passes.item (passes.find whole held)
  · simp at found

end PassesDown

namespace Hereditary

variable {P : Value → Prop} (hereditary : Hereditary P)

include hereditary

theorem pair {value : Value} {entry : Scalar × Value} (whole : P value)
    (paired : Members.pairOf value = .ok entry) : P entry.2 := by
  unfold Members.pairOf at paired
  split at paired
  · cases paired
    exact hereditary.item whole _ (by simp)
  · cases paired
  · cases paired
    exact hereditary.scalar _
  · split at paired
    · cases paired
      exact hereditary.scalar _
    · cases paired
  · cases paired
  · cases paired

theorem elements {value : Value} {items : List Value} (whole : P value)
    (given : value.givenElements = .ok items) : ∀ item ∈ items, P item := by
  unfold Value.givenElements Value.elements at given
  intro item member
  split at given
  · split at given
    · cases given
      exact hereditary.item whole item member
    · cases given
      obtain ⟨c, -, rfl⟩ := List.mem_map.mp member
      exact hereditary.scalar _
    · cases given
      obtain ⟨entry, -, rfl⟩ := List.mem_map.mp member
      exact hereditary.scalar _
    · cases given
  · cases given
    simp at member

theorem entriesOf {value : Value} {entries : Entries} (whole : P value)
    (read : Members.entriesOf value = .ok entries) : ∀ entry ∈ entries, P entry.2 := by
  unfold Members.entriesOf at read
  split at read
  · cases read
    exact hereditary.entry whole
  · obtain ⟨items, given, paired⟩ := (bind_eq_ok _ _ _).mp read
    intro entry member
    obtain ⟨item, inside, made⟩ := source_of_mapM paired member
    exact hereditary.pair (hereditary.elements whole given item inside) made

end Hereditary

namespace Entries

@[simp] theorem same_text (key : Scalar) (name : String) :
    key.same (.text name) = decide (key = .text name) := by
  rw [Bool.eq_iff_iff]
  cases key <;> simp [Scalar.same, Scalar.toInt?]

theorem find_insert_self (entries : Entries) (name : String) (value : Value) :
    find? (insert entries (.text name) value) name = some value := by
  induction entries with
  | nil => simp [insert, find?]
  | cons entry rest ih =>
      by_cases same : entry.1 = .text name
      · simp [insert, find?, same]
      · simp [insert, find?, same, ih]

theorem find_insert_of_ne (entries : Entries) {name other : String} (value : Value)
    (differs : name ≠ other) :
    find? (insert entries (.text name) value) other = find? entries other := by
  induction entries with
  | nil => simp [insert, find?, differs]
  | cons entry rest ih =>
      by_cases same : entry.1 = .text name
      · simp [insert, find?, same, differs]
      · simp [insert, find?, same, ih]

theorem find_without_of_ne (entries : Entries) {name other : String} (differs : name ≠ other) :
    find? (without entries name) other = find? entries other := by
  induction entries with
  | nil => rfl
  | cons entry rest ih =>
      by_cases same : entry.1 = .text name
      · have shorter : without (entry :: rest) name = without rest name := by simp [without, same]
        rw [shorter, ih]
        simp [find?, same, differs]
      · have kept : without (entry :: rest) name = entry :: without rest name := by
          simp [without, same]
        rw [kept]
        simp only [find?, ih]

theorem mem_insert {entries : Entries} {key : Scalar} {value : Value} {entry : Scalar × Value}
    (member : entry ∈ insert entries key value) : entry ∈ entries ∨ entry.2 = value := by
  induction entries with
  | nil => simp_all [insert]
  | cons first rest ih =>
      simp only [insert] at member
      split at member <;> simp at member ⊢ <;> rcases member with rfl | member <;> simp_all
      tauto

theorem mem_insertAll {entries more : Entries} {entry : Scalar × Value}
    (member : entry ∈ insertAll entries more) :
    entry ∈ entries ∨ ∃ source ∈ more, entry.2 = source.2 := by
  induction more generalizing entries with
  | nil => exact .inl member
  | cons first rest ih =>
      rcases ih member with old | ⟨source, inside, same⟩
      · rcases mem_insert old with old | new
        · exact .inl old
        · exact .inr ⟨first, by simp, new⟩
      · exact .inr ⟨source, by simp [inside], same⟩

end Entries

theorem mem_of_lookup {β : Type} {pairs : List (String × β)} {key : String} {value : β}
    (found : pairs.lookup key = some value) : (key, value) ∈ pairs := by
  obtain ⟨before, after, rfl, -⟩ := List.lookup_eq_some_iff.mp found
  simp

theorem Schemas.mem_of_find {schemas : Schemas} {key : String} {schema : Value}
    (found : schemas.find? key = some schema) : (key, schema) ∈ schemas :=
  mem_of_lookup found

/-- What merging leaves under `properties` has a property entry by entry. -/
def PropertiesHave (P : Value → Prop) (schema : Value) : Prop :=
  ∀ entries, Members.entriesOf (schema.field "properties") = .ok entries →
    ∀ entry ∈ entries, P entry.2

namespace Hereditary

variable {P : Value → Prop} (hereditary : Hereditary P)

include hereditary

theorem properties {schema : Value} (whole : P schema) : PropertiesHave P schema := by
  intro entries read
  refine hereditary.entriesOf ?_ read
  cases schema with
  | object held => exact hereditary.field whole _
  | scalar s => exact hereditary.scalar _
  | list items => exact hereditary.scalar _

end Hereditary

theorem PropertiesHave.add {P : Value → Prop} {members added : Members} {schema : Value}
    (given : PropertiesHave P schema) (before : ∀ entry ∈ members.properties, P entry.2)
    (ran : members.add schema = .ok added) : ∀ entry ∈ added.properties, P entry.2 := by
  unfold Members.add at ran
  split at ran
  · simp only [bind_eq_ok, pure_eq_ok] at ran
    obtain ⟨properties, read, required, -, rfl⟩ := ran
    intro entry member
    rcases Entries.mem_insertAll member with old | ⟨source, inside, same⟩
    · exact before entry old
    · rw [same]
      exact given properties read source inside
  · cases ran
    exact before

theorem properties_withMembers {entries : Entries} {members : Members} {merged : Value}
    (ran : withMembers entries members = .ok merged) :
    merged.field "properties" = .object members.properties := by
  unfold withMembers at ran
  simp only [bind_eq_ok, pure_eq_ok] at ran
  obtain ⟨required, -, rfl⟩ := ran
  simp only [Value.field, Entries.field]
  split
  · rw [Entries.find_insert_self]
    rfl
  · rw [Entries.find_insert_of_ne _ _ (by decide), Entries.find_insert_self]
    rfl

mutual

theorem propertiesHave_flattenIn {P : Value → Prop} (hereditary : Hereditary P)
    (remaining : Schemas) (schema flat : Value) (known : ∀ entry ∈ remaining, P entry.2)
    (whole : P schema) (ran : flattenIn remaining schema = .ok flat) : PropertiesHave P flat := by
  match schema, whole, ran with
  | .scalar s, whole, ran =>
      rw [flattenIn] at ran
      · cases ran
        exact hereditary.properties whole
      · simp
  | .list items, whole, ran =>
      rw [flattenIn] at ran
      · cases ran
        exact hereditary.properties whole
      · simp
  | .object entries, whole, ran =>
      rw [flattenIn] at ran
      split at ran
      · rename_i parts found
        split at ran
        · simp only [bind_eq_ok] at ran
          obtain ⟨members, gathered, added, ran, merged⟩ := ran
          have smaller : sizeOf parts < sizeOf (Value.object entries) := by
            have bound := Entries.sizeOf_find? found
            simp only [Value.list.sizeOf_spec, Value.object.sizeOf_spec] at bound ⊢
            omega
          have before := properties_gatherParts hereditary remaining parts {} members known
            (hereditary.item (hereditary.find whole found)) (by simp) gathered
          intro properties read entry member
          rw [properties_withMembers merged] at read
          cases read
          refine PropertiesHave.add ?_ before ran entry member
          have own := hereditary.properties whole
          simp only [PropertiesHave, Value.field, Entries.field] at own ⊢
          rwa [Entries.find_without_of_ne _ (by decide)]
        · cases ran
          exact hereditary.properties whole
      · cases ran
        exact hereditary.properties whole
termination_by (remaining.length, sizeOf schema)
decreasing_by exact Prod.Lex.right _ smaller

theorem properties_gatherParts {P : Value → Prop} (hereditary : Hereditary P)
    (remaining : Schemas) (parts : List Value) (members gathered : Members)
    (known : ∀ entry ∈ remaining, P entry.2) (inside : ∀ part ∈ parts, P part)
    (before : ∀ entry ∈ members.properties, P entry.2)
    (ran : gatherParts remaining parts members = .ok gathered) :
    ∀ entry ∈ gathered.properties, P entry.2 := by
  match parts, inside, ran with
  | [], inside, ran =>
      rw [gatherParts] at ran
      cases ran
      exact before
  | part :: rest, inside, ran =>
      have later : ∀ part ∈ rest, P part := fun part member => inside part (by simp [member])
      have shorter : sizeOf rest < sizeOf (part :: rest) := by
        simp only [List.cons.sizeOf_spec]
        omega
      have smaller : sizeOf part < sizeOf (part :: rest) := by
        simp only [List.cons.sizeOf_spec]
        omega
      rw [gatherParts] at ran
      split at ran
      · simp only [bind_eq_ok] at ran
        obtain ⟨key, -, ran⟩ := ran
        split at ran
        · rename_i target held
          simp only [bind_eq_ok] at ran
          obtain ⟨resolved, flattened, added, contributed, ran⟩ := ran
          have fewer := Schemas.length_without_lt held
          have left : ∀ entry ∈ remaining.without key, P entry.2 :=
            fun entry member => known entry (List.mem_of_mem_filter member)
          have given := propertiesHave_flattenIn hereditary (remaining.without key) target
            resolved left (known _ (Schemas.mem_of_find held)) flattened
          exact properties_gatherParts hereditary remaining rest added gathered known later
            (given.add before contributed) ran
        · exact properties_gatherParts hereditary remaining rest members gathered known later
            before ran
      · simp only [bind_eq_ok] at ran
        obtain ⟨resolved, flattened, added, contributed, ran⟩ := ran
        have given := propertiesHave_flattenIn hereditary remaining part resolved known
          (inside part (by simp)) flattened
        exact properties_gatherParts hereditary remaining rest added gathered known later
          (given.add before contributed) ran
termination_by (remaining.length, sizeOf parts)
decreasing_by
  · exact Prod.Lex.left _ _ fewer
  · exact Prod.Lex.right _ shorter
  · exact Prod.Lex.right _ shorter
  · exact Prod.Lex.right _ smaller
  · exact Prod.Lex.right _ shorter

end

end TypedClient

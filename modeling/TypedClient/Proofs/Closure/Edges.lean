import TypedClient.Api.Models
import TypedClient.Proofs.Interface.Fields
import TypedClient.Proofs.Schema.Typing

namespace TypedClient

open Closure

def RefsAmong (keys : List String) (value : Value) : Prop := ∀ key ∈ refsOf value, key ∈ keys

theorem refsOfItems_eq (items : List Value) : refsOfItems items = items.flatMap refsOf := by
  induction items with
  | nil => rfl
  | cons item rest ih => simp [refsOfItems, ih]

theorem refsOfEntries_eq (entries : Entries) :
    refsOfEntries entries = entries.flatMap refsOfEntry := by
  induction entries with
  | nil => rfl
  | cons entry rest ih => simp [refsOfEntries, ih]

theorem refsOf_subset_refsOfEntry (entry : Scalar × Value) :
    refsOf entry.2 ⊆ refsOfEntry entry := by
  unfold refsOfEntry
  split
  · simp [refsOf]
  · exact List.Subset.refl _

namespace RefsAmong

variable {keys : List String}

theorem hereditary (keys : List String) : Hereditary (RefsAmong keys) where
  scalar s := by simp [RefsAmong, refsOf]
  item := by
    intro items whole item member key inside
    apply whole
    rw [refsOf, refsOfItems_eq]
    exact List.mem_flatMap.mpr ⟨item, member, inside⟩
  entry := by
    intro entries whole entry member key inside
    apply whole
    rw [refsOf, refsOfEntries_eq]
    exact List.mem_flatMap.mpr ⟨entry, member, refsOf_subset_refsOfEntry entry inside⟩

theorem of_find {entries : Entries} {ref : String} (whole : RefsAmong keys (.object entries))
    (found : Entries.find? entries "$ref" = some (.text ref)) : schemaKey ref ∈ keys := by
  apply whole
  rw [refsOf, refsOfEntries_eq]
  exact List.mem_flatMap.mpr ⟨_, Entries.mem_of_find? found, by simp [refsOfEntry]⟩

theorem of_field {entries : Entries} {ref : String} (whole : RefsAmong keys (.object entries))
    (held : Entries.field entries "$ref" = .text ref) : schemaKey ref ∈ keys := by
  unfold Entries.field at held
  cases found : Entries.find? entries "$ref" with
  | none => simp [found] at held
  | some value =>
      rw [found] at held
      cases held
      exact whole.of_find found

theorem of_ref {target : Value} {ref : String} (whole : RefsAmong keys target)
    (held : target.ref? = some (.text ref)) : schemaKey ref ∈ keys := by
  unfold Value.ref? at held
  split at held
  · exact whole.of_find held
  · cases held

/-- The references that a type rests on are among those of the schema and of the collection. -/
theorem typing (context : TypeContext) (keys : List String) :
    TypingRules context
      (fun remaining schema typed => RefsAmong keys schema →
        (∀ entry ∈ remaining, RefsAmong keys entry.2) → ∀ ref ∈ typed.refs, schemaKey ref ∈ keys)
      (fun remaining ref typed => schemaKey ref ∈ keys →
        (∀ entry ∈ remaining, RefsAmong keys entry.2) →
          ∀ ref ∈ typed.refs, schemaKey ref ∈ keys) where
  shorthand := by simp
  other := by simp
  reference held inner whole known := inner (whole.of_field held) known
  variants := by
    intro remaining entries name form variants parts member found each whole known ref inside
    have given := (hereditary keys).variants whole found
    obtain ⟨part, place, inside⟩ := List.mem_flatMap.mp inside
    obtain ⟨variant, member, inner⟩ := partner_of_mem each place
    exact inner (given variant (List.mem_of_mem_filter member)) known ref inside
  array form inner whole known :=
    inner (SchemaForm.eq_items form ▸ (hereditary keys).field whole _) known
  anyArray := by simp
  choices := by simp
  record form inner whole known :=
    inner (SchemaForm.eq_record form ▸ (hereditary keys).field whole _) known
  structured := by simp
  keyword := by simp
  chosen := by simp
  primitive := by
    intro remaining ref named member known
    simpa using member
  unopened := by
    intro remaining ref other absent member known
    simpa [Typed.named] using member
  aliased := by
    intro remaining ref target next typed other found held inner member known
    refine inner ((known _ (Schemas.mem_of_find found)).of_ref held) ?_
    exact fun entry inside => known entry (List.mem_of_mem_filter inside)
  model := by
    intro remaining ref target other found own judged member known
    simpa [Typed.named] using member
  inPlace := by
    intro remaining ref target typed other found own judged inner member known
    refine inner (known _ (Schemas.mem_of_find found)) ?_
    exact fun entry inside => known entry (List.mem_of_mem_filter inside)

theorem fields (context : FieldContext)
    (known : ∀ entry ∈ context.schemas, RefsAmong keys entry.2) :
    CodeRules context (RefsAmong keys) (fun _ => True)
      (fun code => ∀ ref ∈ code.refs, schemaKey ref ∈ keys) where
  hereditary := hereditary keys
  empty := by simp
  append := by
    intro first second left right ref member
    exact (List.mem_append.mp member).elim (left ref) (right ref)
  text holds _ := holds
  named := by
    intro generics schema code later _ whole ran
    refine ⟨?_, trivial⟩
    unfold namedType at ran
    simp only [bind_eq_ok] at ran
    obtain ⟨typed, found, ran⟩ := ran
    have among := (typing context.toTypeContext keys).ofSchema _ _ _ found whole known
    split at ran <;> cases ran <;> exact among

end RefsAmong

namespace Closure

theorem refsAmong_keysWithin (schemas : Schemas) :
    ∀ entry ∈ schemas, RefsAmong (keysWithin schemas) entry.2 := by
  intro entry member key inside
  exact List.mem_eraseDups.mpr (List.mem_flatMap.mpr ⟨entry, member, inside⟩)

/-- The interface of a schema of the collection refers to keys that the collection refers to. -/
theorem refs_modelCode {context : FieldContext} {ref key : String} {schema : Value}
    {code : ModelCode} (member : (key, schema) ∈ context.schemas)
    (ran : modelCode context ref schema = .ok code) :
    ∀ ref ∈ code.refs, schemaKey ref ∈ keysWithin context.schemas := by
  have known := refsAmong_keysWithin context.schemas
  obtain ⟨body, among, same, -⟩ :=
    (RefsAmong.fields context known).modelCode known (known _ member) trivial ran
  rw [same]
  exact among

end Closure

end TypedClient

import Mathlib.Logic.Relation
import TypedClient.Proofs.Closure.Edges
import TypedClient.Proofs.Naming.SchemaKey
import TypedClient.Proofs.Schema.Forms
import TypedClient.Proofs.Schema.Rendered

namespace TypedClient

open Closure TypeExpr

inductive EntryWithin (entry : Scalar × Value) : Value → Prop
  | here {entries : Entries} (member : entry ∈ entries) : EntryWithin entry (.object entries)
  | entry {entries : Entries} {outer : Scalar × Value} (member : outer ∈ entries)
    (inner : EntryWithin entry outer.2) : EntryWithin entry (.object entries)
  | item {items : List Value} {item : Value} (member : item ∈ items)
    (inner : EntryWithin entry item) : EntryWithin entry (.list items)

theorem entryWithin_scalar (entry : Scalar × Value) (s : Scalar) :
    ¬ EntryWithin entry (.scalar s) := by
  intro within
  cases within

theorem entryWithin_list (entry : Scalar × Value) (items : List Value) :
    EntryWithin entry (.list items) ↔ ∃ item ∈ items, EntryWithin entry item := by
  constructor
  · intro within
    cases within with
    | item member inner => exact ⟨_, member, inner⟩
  · rintro ⟨item, member, inner⟩
    exact .item member inner

theorem entryWithin_object (entry : Scalar × Value) (entries : Entries) :
    EntryWithin entry (.object entries) ↔
      ∃ outer ∈ entries, entry = outer ∨ EntryWithin entry outer.2 := by
  constructor
  · rintro (member | ⟨member, inner⟩)
    · exact ⟨entry, member, .inl rfl⟩
    · exact ⟨_, member, .inr inner⟩
  · rintro ⟨outer, member, rfl | inner⟩
    · exact .here member
    · exact .entry member inner

/-- Every reference at any depth is one to a schema of the collection. -/
def RefsFormed (schemas : Schemas) (value : Value) : Prop :=
  ∀ ref, EntryWithin (.text "$ref", .text ref) value →
    ∃ key, (schemas.find? key).isSome = true ∧ ref = refTo key

/-- The literals of every `enum` at any depth are complete and name no model. -/
def ChoicesInert (value : Value) : Prop :=
  ∀ choices items, EntryWithin (.text "enum", choices) value → choices.elements = .ok items →
    ∀ item ∈ items, IsInert item

/-- Every `enum` at any depth holds integers and texts without a backslash only. -/
def ChoicesPlain (value : Value) : Prop :=
  ∀ choices items, EntryWithin (.text "enum", choices) value → choices.elements = .ok items →
    ∀ item ∈ items, (∃ n, item = .int n) ∨ ∃ text : String, item = .text text ∧ '\\' ∉ text.toList

theorem ChoicesPlain.inert {value : Value} (plain : ChoicesPlain value) : ChoicesInert value := by
  intro choices items within listed item member
  rcases plain choices items within listed item member with ⟨n, rfl⟩ | ⟨text, rfl, unescaped⟩
  · exact inert_int n
  · exact inert_text unescaped

structure Sound (schemas : Schemas) (value : Value) : Prop where
  formed : RefsFormed schemas value
  inert : ChoicesInert value

theorem Sound.hereditary (schemas : Schemas) : Hereditary (Sound schemas) where
  scalar s := ⟨fun _ within => (by cases within), fun _ _ within => (by cases within)⟩
  item whole item member :=
    ⟨fun ref within => whole.formed ref (.item member within),
      fun choices items within => whole.inert choices items (.item member within)⟩
  entry whole entry member :=
    ⟨fun ref within => whole.formed ref (.entry member within),
      fun choices items within => whole.inert choices items (.entry member within)⟩

/-- The schema under a key is written out where it is referred to, and refers to another key. -/
def InPlaceEdge (schemas : Schemas) (key child : String) : Prop :=
  ∃ schema, schemas.find? key = some schema ∧
    (schema.ref?.isSome = true ∨ isModel schemas key schema = .ok false) ∧ child ∈ refsOf schema

/-- No chain of references through schemas that are written out comes back to its start. -/
def NoInPlaceCycle (schemas : Schemas) : Prop :=
  ∀ key, ¬ Relation.TransGen (InPlaceEdge schemas) key key

theorem noInPlaceCycle_of_models {schemas : Schemas}
    (models : ∀ key schema, schemas.find? key = some schema →
      schema.ref? = none ∧ isModel schemas key schema = .ok true) : NoInPlaceCycle schemas := by
  have none (key child : String) : ¬ InPlaceEdge schemas key child := by
    rintro ⟨schema, found, aliased | inline, -⟩
    · simp [(models key schema found).1] at aliased
    · simp [(models key schema found).2] at inline
  intro key cycle
  cases cycle with
  | single edge => exact none _ _ edge
  | tail _ edge => exact none _ _ edge

/-- The keys that are closed on a branch lead to those ahead, and nothing else is closed. -/
structure Branch (schemas remaining : Schemas) (ahead : List String) : Prop where
  part : ∀ {key schema}, remaining.find? key = some schema → schemas.find? key = some schema
  behind : ∀ {key}, (schemas.find? key).isSome = true → remaining.find? key = none →
    ∀ child ∈ ahead, Relation.TransGen (InPlaceEdge schemas) key child

theorem Schemas.find_without (schemas : Schemas) (closed key : String) :
    (schemas.without closed).find? key = if key = closed then none else schemas.find? key := by
  induction schemas with
  | nil => simp [without, find?]
  | cons entry rest ih =>
      obtain ⟨name, schema⟩ := entry
      unfold without find? at *
      by_cases shut : name = closed
      · subst shut
        rw [List.filter_cons_of_neg (by simp), ih, List.lookup_cons]
        by_cases same : key = name
        · simp [same]
        · simp [same, beq_false_of_ne same]
      · rw [List.filter_cons_of_pos (by simpa using shut), List.lookup_cons, List.lookup_cons, ih]
        by_cases same : key = name
        · subst same
          simp [shut]
        · simp only [beq_false_of_ne same]

namespace Branch

variable {schemas remaining : Schemas} {ahead : List String} {key : String} {schema : Value}

theorem start (schemas : Schemas) (ahead : List String) : Branch schemas schemas ahead := by
  constructor
  · exact id
  · intro key present absent
    simp [absent] at present

theorem mono {fewer : List String} (branch : Branch schemas remaining ahead)
    (inside : fewer ⊆ ahead) : Branch schemas remaining fewer :=
  ⟨branch.part, fun present absent child member =>
    branch.behind present absent child (inside member)⟩

theorem opens (branch : Branch schemas remaining ahead) (acyclic : NoInPlaceCycle schemas)
    (member : key ∈ ahead) (present : (schemas.find? key).isSome = true) :
    ∃ schema, remaining.find? key = some schema := by
  cases found : remaining.find? key with
  | none => exact absurd (branch.behind present found key member) (acyclic key)
  | some schema => exact ⟨schema, rfl⟩

/-- Writing out the schema under a key ahead closes the key, with what it refers to ahead. -/
theorem step (branch : Branch schemas remaining ahead) (member : key ∈ ahead)
    (found : remaining.find? key = some schema)
    (written : schema.ref?.isSome = true ∨ isModel schemas key schema = .ok false) :
    Branch schemas (remaining.without key) (refsOf schema) := by
  have edge : ∀ child ∈ refsOf schema, InPlaceEdge schemas key child :=
    fun child inside => ⟨schema, branch.part found, written, inside⟩
  constructor
  · intro other held kept
    rw [Schemas.find_without] at kept
    split at kept
    · cases kept
    · exact branch.part kept
  · intro other present absent child inside
    rw [Schemas.find_without] at absent
    split at absent
    · rename_i same
      subst same
      exact .single (edge child inside)
    · exact (branch.behind present absent key member).tail (edge child inside)

end Branch

/-- The schema under a key has an interface of its own. -/
def IsModelKey (schemas : Schemas) (key : String) : Prop :=
  ∃ schema, schemas.find? key = some schema ∧ schema.ref? = none ∧
    isModel schemas key schema = .ok true

/-- A type rests on models only, and names those that it rests on. -/
structure ModelsOnly (schemas : Schemas) (typed : Typed) : Prop where
  models : ∀ ref ∈ typed.refs, IsModelKey schemas (schemaKey ref)
  named : NamesAmong (fun name => isBuiltin name = true ∨ name ∈ typed.refs.map schemaKey)
    typed.type.render.toList

namespace ModelsOnly

variable {schemas : Schemas}

theorem of_builtin {type : PropertyType}
    (named : ∀ Known : String → Prop, (∀ name, isBuiltin name = true → Known name) →
      NamesAmong Known type.render.toList) : ModelsOnly schemas ⟨type, [], []⟩ :=
  ⟨by simp, named _ fun _ known => .inl known⟩

theorem of_baseType {text : String} (base : isBaseType text = true) :
    ModelsOnly schemas ⟨.plain text, [], []⟩ :=
  of_builtin fun _ builtin => among_baseType builtin text base

theorem ofParts {name : String} {form : List PropertyType → PropertyType} {parts : List Typed}
    (joins : (name, form) ∈ variantForms) (each : ∀ part ∈ parts, ModelsOnly schemas part) :
    ModelsOnly schemas (.ofParts form parts) := by
  constructor
  · intro ref member
    obtain ⟨part, inside, own⟩ := List.mem_flatMap.mp member
    exact (each part inside).models ref own
  · apply among_variants (fun _ known => .inl known) joins
    intro type member
    obtain ⟨part, inside, rfl⟩ := List.mem_map.mp member
    refine (each part inside).named.mono ?_
    rintro shown (known | own)
    · exact .inl known
    · obtain ⟨ref, place, rfl⟩ := List.mem_map.mp own
      exact .inr (List.mem_map_of_mem (List.mem_flatMap.mpr ⟨part, inside, place⟩))

theorem model {context : TypeContext} {ref key : String} (unmapped : context.mapping = [])
    (plain : isPlainKey key = true) (leads : schemaKey ref = key)
    (model : IsModelKey schemas key) : ModelsOnly schemas (.named context ref) := by
  have decoded := parse_of_plain plain leads
  unfold Typed.named
  rw [unmapped, decoded]
  refine ⟨by simpa [leads] using model, ?_⟩
  change NamesAmong _ key.toList
  refine NamesAmong.name (isName_of_plain plain) (.inr ?_)
  simp [leads]

end ModelsOnly

theorem find_cases {mapping : TypeMapping} {name type : String}
    (found : mapping.find? name = some type) :
    mapping.lookup name = some type ∨ isBaseType type = true := by
  rw [TypeMapping.find?] at found
  rcases Option.or_eq_some_iff.mp found with own | ⟨-, base⟩
  · exact .inl own
  · have all : ∀ entry ∈ baseMapping, isBaseType entry.2 = true := by decide
    exact .inr (all _ (mem_of_lookup base))

theorem isBaseType_find (name : String) :
    isBaseType ((TypeMapping.find? [] name).getD "any") = true := by
  cases found : TypeMapping.find? [] name with
  | none => rfl
  | some type => exact (find_cases found).resolve_left (by simp)

theorem lookup_of_plain {key : String} (plain : isPlainKey key = true) :
    baseMapping.lookup key = none := by
  rw [List.lookup_eq_none_iff]
  intro entry member
  have others : ∀ entry ∈ baseMapping, isPlainKey entry.1 = false := by decide
  rw [bne_iff_ne]
  rintro rfl
  rw [others entry member] at plain
  cases plain

theorem isPrimitiveRef_of_plain {context : TypeContext} {ref key : String}
    (unmapped : context.mapping = []) (plain : isPlainKey key = true)
    (leads : schemaKey ref = key) : isPrimitiveRef context ref = false := by
  have absent : TypeMapping.find? [] key = none := lookup_of_plain plain
  have any : primitiveOf context ref = "any" := by
    rw [primitiveOf, unmapped, parse_of_plain plain leads, absent]
    rfl
  simp [isPrimitiveRef, any]

theorem plain_of_isSome {schemas : Schemas} {key : String}
    (keys : ∀ entry ∈ schemas, isPlainKey entry.1 = true)
    (present : (schemas.find? key).isSome = true) : isPlainKey key = true := by
  obtain ⟨schema, found⟩ := Option.isSome_iff_exists.mp present
  exact keys _ (Schemas.mem_of_find found)

theorem Entries.mem_of_field {entries : Entries} {name text : String}
    (held : Entries.field entries name = .text text) : (.text name, .text text) ∈ entries := by
  unfold Entries.field at held
  cases found : Entries.find? entries name with
  | none => simp [found] at held
  | some value =>
      rw [found] at held
      cases held
      exact Entries.mem_of_find? found

theorem EntryWithin.of_ref {target : Value} {ref : String} (held : target.ref? = some (.text ref)) :
    EntryWithin (.text "$ref", .text ref) target := by
  unfold Value.ref? at held
  split at held
  · exact .here (Entries.mem_of_find? held)
  · cases held

theorem EntryWithin.of_choices {entries : Entries} {choices : Value} {items : List Value}
    (form : SchemaForm.ofEntries entries = .enum choices) (listed : choices.elements = .ok items) :
    EntryWithin (.text "enum", choices) (.object entries) := by
  have held := SchemaForm.eq_choices form
  rw [Entries.field] at held
  cases found : Entries.find? entries "enum" with
  | none =>
      rw [held, found] at listed
      cases listed
  | some value =>
      rw [found] at held
      cases held
      exact .here (Entries.mem_of_find? found)

/-- The type of a schema names the models that it rests on, and rests on models only. -/
theorem ModelsOnly.typing (context : TypeContext) (unmapped : context.mapping = [])
    (keys : ∀ entry ∈ context.schemas, isPlainKey entry.1 = true)
    (sound : ∀ entry ∈ context.schemas, Sound context.schemas entry.2)
    (acyclic : NoInPlaceCycle context.schemas) :
    TypingRules context
      (fun remaining schema typed => Sound context.schemas schema →
        Branch context.schemas remaining (refsOf schema) → ModelsOnly context.schemas typed)
      (fun remaining ref typed =>
        (∃ key, (context.schemas.find? key).isSome = true ∧ ref = refTo key) →
        Branch context.schemas remaining [schemaKey ref] → ModelsOnly context.schemas typed) where
  shorthand := by
    intro remaining name _ _
    rw [unmapped]
    exact of_baseType (isBaseType_find name)
  other := by
    intro remaining schema _ _ _ _
    exact of_baseType (by decide)
  reference := by
    intro remaining entries ref typed held inner whole branch
    refine inner (whole.formed ref (.here (Entries.mem_of_field held))) (branch.mono ?_)
    intro key member
    obtain rfl := List.mem_singleton.mp member
    exact RefsAmong.of_field (fun _ inside => inside) held
  variants := by
    intro remaining entries name form variants parts joins found each whole branch
    refine ofParts joins fun part place => ?_
    obtain ⟨variant, member, inner⟩ := partner_of_mem each place
    have inside := List.mem_of_mem_filter member
    exact inner ((Sound.hereditary _).variants whole found variant inside)
      (branch.mono ((RefsAmong.hereditary _).variants (fun _ own => own) found variant inside))
  array := by
    intro remaining entries items item form inner whole branch
    rw [SchemaForm.eq_items form] at inner
    have typed := inner ((Sound.hereditary _).field whole _)
      (branch.mono ((RefsAmong.hereditary _).field (fun _ own => own) _))
    exact ⟨typed.models, among_array typed.named⟩
  anyArray := by
    intro remaining entries items _ _ _ _
    exact of_builtin fun _ builtin => among_array (among_baseType builtin "any" (by decide))
  choices := by
    intro remaining entries choices type form made whole _
    obtain ⟨items, listed, -⟩ := (bind_eq_ok _ _ _).mp made
    exact of_builtin fun _ builtin => among_choices builtin listed
      (whole.inert choices items (EntryWithin.of_choices form listed) listed) made
  record := by
    intro remaining entries value typed form inner whole branch
    rw [SchemaForm.eq_record form] at inner
    have typed := inner ((Sound.hereditary _).field whole _)
      (branch.mono ((RefsAmong.hereditary _).field (fun _ own => own) _))
    exact ⟨typed.models, among_record (fun _ known => .inl known) typed.named⟩
  structured := by
    intro remaining entries _ _ _
    exact of_baseType (by decide)
  keyword := by
    intro remaining entries keyword type _ made _ _
    rw [unmapped] at made
    unfold PropertyType.ofTypeField at made
    split at made
    · cases made
      exact of_baseType (isBaseType_find _)
    · cases made
      exact of_baseType (by decide)
    · cases made
  chosen := by
    intro remaining ref chosen found
    rw [unmapped] at found
    cases found
  primitive := by
    intro remaining ref primitive formed branch
    obtain ⟨key, present, rfl⟩ := formed
    have plain := plain_of_isSome keys present
    rw [isPrimitiveRef_of_plain unmapped plain (schemaKey_refTo plain)] at primitive
    cases primitive
  unopened := by
    intro remaining ref _ absent formed branch
    obtain ⟨key, present, rfl⟩ := formed
    have plain := plain_of_isSome keys present
    rw [schemaKey_refTo plain] at absent branch
    obtain ⟨schema, found⟩ := branch.opens acyclic (List.mem_singleton_self key) present
    rw [absent] at found
    cases found
  aliased := by
    intro remaining ref target next typed _ found held inner _ branch
    have member := Schemas.mem_of_find (branch.part found)
    have leads : schemaKey next ∈ refsOf target := RefsAmong.of_ref (fun _ inside => inside) held
    refine inner ((sound _ member).formed next (EntryWithin.of_ref held)) ?_
    refine (branch.step (by simp) found (.inl (by rw [held]; rfl))).mono ?_
    simpa using leads
  model := by
    intro remaining ref target _ found own judged formed branch
    obtain ⟨key, present, rfl⟩ := formed
    have plain := plain_of_isSome keys present
    have leads := schemaKey_refTo plain
    rw [leads] at found judged
    exact model unmapped plain leads ⟨target, branch.part found, own, judged⟩
  inPlace := by
    intro remaining ref target typed _ found own judged inner _ branch
    exact inner (sound _ (Schemas.mem_of_find (branch.part found)))
      (branch.step (by simp) found (.inr judged))

/-- A reference has the type that its key names, unless the collection holds something else than a
model under the key. -/
theorem typeOfRef_named {context : TypeContext} {key : String} (unmapped : context.mapping = [])
    (plain : isPlainKey key = true) (named : ∀ schema, context.schemas.find? key = some schema →
      schema.ref? = none ∧ isModel context.schemas key schema = .ok true) :
    typeOfRef context context.schemas (refTo key) = .ok ⟨.plain key, [refTo key], [key]⟩ := by
  have leads := schemaKey_refTo plain
  have unnamed : context.mapping.lookup
      (SchemaName.parse context.mapping (refTo key)).typeName = none := by
    rw [unmapped]
    rfl
  have other := isPrimitiveRef_of_plain unmapped plain leads
  have decoded : Typed.named context (refTo key) = ⟨.plain key, [refTo key], [key]⟩ := by
    rw [Typed.named, unmapped, parse_of_plain plain leads]
  rw [← decoded]
  cases found : context.schemas.find? key with
  | none =>
      apply typeOfRef_unopened unnamed other
      rw [leads]
      exact found
  | some target =>
      obtain ⟨own, judged⟩ := named target found
      rw [← leads] at found judged
      exact typeOfRef_model unnamed other found own judged

theorem typeOf_refTo {context : TypeContext} {key : String} :
    typeOf context context.schemas (.record [("$ref", .text (refTo key))]) =
      typeOfRef context context.schemas (refTo key) := by
  have given : refTo key ≠ "" := by
    intro empty
    exact absurd (String.append_eq_empty_iff.mp empty).1 (by decide)
  exact typeOf_ref rfl given

end TypedClient

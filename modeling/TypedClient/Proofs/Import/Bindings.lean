import Mathlib.Data.List.Nodup
import TypedClient.Proofs.Import.Readable

namespace TypedClient

inductive Bound
  | default (name : String)
  | space (name : String)
  | named (name : String)
  deriving DecidableEq, Repr

structure Binding where
  path : String
  onlyType : Bool
  bound : Bound
  deriving DecidableEq, Repr

namespace Import

def bounds (statement : Import) : List Bound :=
  statement.defaultName.toList.map .default ++ statement.asName.toList.map .space ++
    statement.names.map .named

def bindings (statement : Import) : List Binding :=
  statement.bounds.map (Binding.mk statement.path statement.onlyType)

end Import

def ImportEntry.verbatim? : ImportEntry → Option String
  | item _ => none
  | verbatim text => some text

def itemsOf (entries : List ImportEntry) : List Import := entries.filterMap ImportEntry.item?

def bindingsOf (entries : List ImportEntry) : List Binding :=
  (itemsOf entries).flatMap Import.bindings

def verbatimsOf (entries : List ImportEntry) : List String :=
  entries.filterMap ImportEntry.verbatim?

def OneDefault (holds : Binding → Prop) : Prop :=
  ∀ path onlyType name other, holds ⟨path, onlyType, .default name⟩ →
    holds ⟨path, onlyType, .default other⟩ → name = other

def Bound.isDefault : Bound → Bool
  | default _ => true
  | _ => false

/-- `OneDefault` pair by pair, to be decided for lists. -/
theorem oneDefault_of_pairs {bindings : List Binding}
    (checked : ∀ first ∈ bindings, ∀ second ∈ bindings, first.path = second.path →
      first.onlyType = second.onlyType → first.bound.isDefault = true →
      second.bound.isDefault = true → first.bound = second.bound) :
    OneDefault (· ∈ bindings) := by
  intro path onlyType name other held held'
  have same := checked _ held _ held' rfl rfl rfl rfl
  cases same
  rfl

section Simp

variable {entries others : List ImportEntry} {statement : Import} {text : String}

@[simp] theorem itemsOf_nil : itemsOf [] = [] := rfl

@[simp] theorem bindingsOf_nil : bindingsOf [] = [] := rfl

@[simp] theorem verbatimsOf_nil : verbatimsOf [] = [] := rfl

@[simp] theorem itemsOf_append : itemsOf (entries ++ others) = itemsOf entries ++ itemsOf others :=
  List.filterMap_append

@[simp] theorem itemsOf_cons_item :
    itemsOf (.item statement :: entries) = statement :: itemsOf entries :=
  rfl

@[simp] theorem itemsOf_cons_verbatim : itemsOf (.verbatim text :: entries) = itemsOf entries :=
  rfl

@[simp] theorem verbatimsOf_append :
    verbatimsOf (entries ++ others) = verbatimsOf entries ++ verbatimsOf others :=
  List.filterMap_append

@[simp] theorem verbatimsOf_cons_item :
    verbatimsOf (.item statement :: entries) = verbatimsOf entries :=
  rfl

@[simp] theorem verbatimsOf_cons_verbatim :
    verbatimsOf (.verbatim text :: entries) = text :: verbatimsOf entries :=
  rfl

@[simp] theorem bindingsOf_append :
    bindingsOf (entries ++ others) = bindingsOf entries ++ bindingsOf others := by
  simp [bindingsOf]

@[simp] theorem bindingsOf_cons_item :
    bindingsOf (.item statement :: entries) = statement.bindings ++ bindingsOf entries :=
  rfl

@[simp] theorem bindingsOf_cons_verbatim :
    bindingsOf (.verbatim text :: entries) = bindingsOf entries :=
  rfl

theorem mem_itemsOf : statement ∈ itemsOf entries ↔ .item statement ∈ entries := by
  constructor
  · intro member
    rcases List.mem_filterMap.mp member with ⟨entry, held, found⟩
    cases entry with
    | item own =>
        cases found
        exact held
    | verbatim text => cases found
  · exact fun member => List.mem_filterMap.mpr ⟨_, member, rfl⟩

theorem mem_verbatimsOf : text ∈ verbatimsOf entries ↔ .verbatim text ∈ entries := by
  constructor
  · intro member
    rcases List.mem_filterMap.mp member with ⟨entry, held, found⟩
    cases entry with
    | item own => cases found
    | verbatim own =>
        cases found
        exact held
  · exact fun member => List.mem_filterMap.mpr ⟨_, member, rfl⟩

theorem mem_bindingsOf {binding : Binding} :
    binding ∈ bindingsOf entries ↔ ∃ statement ∈ itemsOf entries, binding ∈ statement.bindings :=
  List.mem_flatMap

end Simp

namespace Import

variable {statement a b : Import} {binding : Binding}

theorem mem_bindings :
    binding ∈ statement.bindings ↔ binding.path = statement.path ∧
      binding.onlyType = statement.onlyType ∧ binding.bound ∈ statement.bounds := by
  cases binding with
  | mk path onlyType bound =>
      unfold bindings
      simp only [List.mem_map, Binding.mk.injEq]
      constructor
      · rintro ⟨held, member, rfl, rfl, rfl⟩
        exact ⟨rfl, rfl, member⟩
      · rintro ⟨rfl, rfl, member⟩
        exact ⟨bound, member, rfl, rfl, rfl⟩

theorem default_mem_bounds {name : String} :
    .default name ∈ statement.bounds ↔ name ∈ statement.defaultName := by
  simp [bounds]

/-- A namespace stands alone in its statement. -/
def Alone (statement : Import) : Prop :=
  statement.shown.asName ≠ none → statement.shown.defaultName = none ∧ statement.names = []

instance (statement : Import) : Decidable statement.Alone :=
  inferInstanceAs (Decidable (_ → _))

theorem mem_bounds_shown_merge (alone : b.Alone) (alike : a.Alike b)
    (bound : Bound) : bound ∈ (a.merge b).shown.bounds ↔
      bound ∈ a.shown.bounds ∨ bound ∈ b.shown.bounds := by
  cases bound with
  | default name =>
      rw [default_mem_bounds, default_mem_bounds, default_mem_bounds]
      by_cases plain : a.shown.asName = none
      · exact mem_defaultName_shown_merge alike plain
      · have other := (alone (alike.space ▸ plain)).1
        rw [defaultName_shown_merge, other, Option.or_none]
        simp
  | space name =>
      have own : (a.merge b).shown.asName = a.shown.asName := rfl
      simp [bounds, own, ← alike.space]
  | named name => simp [bounds, shown, merge]

theorem mem_bindings_shown_merge (alone : b.Alone) (alike : a.Alike b)
    (binding : Binding) : binding ∈ (a.merge b).shown.bindings ↔
      binding ∈ a.shown.bindings ∨ binding ∈ b.shown.bindings := by
  have bounds := mem_bounds_shown_merge alone alike binding.bound
  have path : (a.merge b).shown.path = a.shown.path := rfl
  have onlyType : (a.merge b).shown.onlyType = a.shown.onlyType := rfl
  have path' : b.shown.path = a.shown.path := alike.path.symm
  have onlyType' : b.shown.onlyType = a.shown.onlyType := alike.onlyType.symm
  rw [mem_bindings, mem_bindings, mem_bindings, path, onlyType, path', onlyType', bounds,
    and_or_left, and_or_left]

theorem Readable.mem_bindings_shown (readable : statement.Readable) :
    binding ∈ statement.shown.bindings ↔ binding ∈ statement.bindings := by
  have bounds : binding.bound ∈ statement.shown.bounds ↔ binding.bound ∈ statement.bounds := by
    unfold bounds
    rw [readable.shown_default, readable.shown_space]
    simp [shown]
  rw [mem_bindings, mem_bindings, bounds]
  rfl

theorem Readable.alone (readable : statement.Readable) : statement.Alone := by
  rw [Alone, readable.shown_space, readable.shown_default]
  intro spaced
  rcases Option.ne_none_iff_exists'.mp spaced with ⟨space, given⟩
  exact (readable.space space given).2

end Import

/-- What the printed entries bind. -/
def shownBindings (entries : List ImportEntry) : List Binding :=
  (itemsOf entries).flatMap fun statement => statement.shown.bindings

section Bindings

variable {entries others : List ImportEntry} {statement : Import} {text : String}

@[simp] theorem shownBindings_nil : shownBindings [] = [] := rfl

@[simp] theorem shownBindings_append :
    shownBindings (entries ++ others) = shownBindings entries ++ shownBindings others := by
  simp [shownBindings]

@[simp] theorem shownBindings_cons_item : shownBindings (.item statement :: entries) =
    statement.shown.bindings ++ shownBindings entries :=
  rfl

@[simp] theorem shownBindings_cons_verbatim :
    shownBindings (.verbatim text :: entries) = shownBindings entries :=
  rfl

theorem mem_shownBindings_addImport (alone : statement.Alone) (binding : Binding) :
    binding ∈ shownBindings (addImport statement entries) ↔
      binding ∈ shownBindings entries ∨ binding ∈ statement.shown.bindings := by
  induction entries with
  | nil => simp [addImport]
  | cons first rest ih =>
      cases first with
      | verbatim text => simpa [addImport] using ih
      | item current =>
          rw [addImport]
          split
          · rename_i merges
            have united :=
              Import.mem_bindings_shown_merge alone (Import.merges_iff.mp merges) binding
            simp only [shownBindings_cons_item, List.mem_append, united]
            exact or_right_comm
          · simp only [shownBindings_cons_item, List.mem_append, ih]
            exact or_assoc.symm

theorem mem_shownBindings_of_readable (readable : ∀ entry ∈ entries, entry.Readable)
    (binding : Binding) : binding ∈ shownBindings entries ↔ binding ∈ bindingsOf entries := by
  rw [shownBindings, List.mem_flatMap, mem_bindingsOf]
  refine exists_congr fun statement => and_congr_right fun member => ?_
  have own : statement.Readable := readable (.item statement) (mem_itemsOf.mp member)
  exact own.mem_bindings_shown

end Bindings

section Add

variable {statement : Import} {entries : List ImportEntry}

theorem mem_bindingsOf_addImport (readable : statement.Readable)
    (all : ∀ entry ∈ entries, entry.Readable) (binding : Binding) :
    binding ∈ bindingsOf (addImport statement entries) ↔
      binding ∈ bindingsOf entries ∨ binding ∈ statement.bindings := by
  have kept : ∀ entry ∈ addImport statement entries, entry.Readable :=
    addImport_forall (fun _ _ => Import.Readable.merge) readable all
  rw [← mem_shownBindings_of_readable kept, mem_shownBindings_addImport readable.alone,
    mem_shownBindings_of_readable all, readable.mem_bindings_shown]

theorem verbatimsOf_addImport :
    verbatimsOf (addImport statement entries) = verbatimsOf entries := by
  induction entries with
  | nil => rfl
  | cons first rest ih =>
      cases first with
      | verbatim text => simp [addImport, ih]
      | item current =>
          rw [addImport]
          split
          · rfl
          · simp [ih]

theorem mem_verbatimsOf_addEntry {entry : ImportEntry} {text : String} :
    text ∈ verbatimsOf (addEntry entries entry) ↔
      text ∈ verbatimsOf entries ∨ text ∈ entry.verbatim? := by
  cases entry with
  | item statement =>
      rw [addEntry, verbatimsOf_addImport]
      simp [ImportEntry.verbatim?]
  | verbatim own =>
      have same : text ∈ (ImportEntry.verbatim own).verbatim? ↔ own = text := Option.some_inj
      rw [addEntry, same]
      split
      · rename_i held
        have inside : own ∈ verbatimsOf entries := mem_verbatimsOf.mpr (by simpa using held)
        exact ⟨.inl, fun either => either.elim id fun equal => equal ▸ inside⟩
      · simp [eq_comm]

theorem nodup_verbatimsOf_addEntry {entry : ImportEntry} (once : (verbatimsOf entries).Nodup) :
    (verbatimsOf (addEntry entries entry)).Nodup := by
  cases entry with
  | item statement =>
      rw [addEntry, verbatimsOf_addImport]
      exact once
  | verbatim text =>
      rw [addEntry]
      split
      · exact once
      · rename_i absent
        have new : text ∉ verbatimsOf entries :=
          fun held => absent (by simpa using mem_verbatimsOf.mp held)
        rw [verbatimsOf_append, verbatimsOf_cons_verbatim, verbatimsOf_nil, ← List.concat_eq_append]
        exact List.Nodup.concat new once

def keysOf (entries : List ImportEntry) : List (String × Bool × Option String) :=
  (itemsOf entries).map Import.key

theorem mem_keysOf_addImport {key : String × Bool × Option String}
    (member : key ∈ keysOf (addImport statement entries)) :
    key ∈ keysOf entries ∨ key = statement.key := by
  induction entries with
  | nil => exact .inr (List.mem_singleton.mp member)
  | cons first rest ih =>
      cases first with
      | verbatim text => exact ih member
      | item current =>
          rw [addImport] at member
          split at member
          · exact .inl member
          · rcases List.mem_cons.mp member with rfl | later
            · exact .inl List.mem_cons_self
            · exact (ih later).imp_left (List.mem_cons_of_mem _)

/-- A key stays single if a statement merges with every other one of its key. -/
theorem nodup_keysOf_addImport (distinct : (keysOf entries).Nodup)
    (alike : ∀ other ∈ itemsOf entries, other.key = statement.key → other.merges statement = true) :
    (keysOf (addImport statement entries)).Nodup := by
  induction entries with
  | nil => exact List.pairwise_singleton _ _
  | cons first rest ih =>
      cases first with
      | verbatim text => exact ih distinct alike
      | item current =>
          rw [addImport]
          split
          · exact distinct
          · rename_i apart
            -- The first entry does not merge, so its key is not the one that is added further on.
            rcases List.nodup_cons.mp distinct with ⟨absent, distinct'⟩
            have later := ih distinct' fun other member => alike other (by simp [member])
            refine List.nodup_cons.mpr ⟨fun member => ?_, later⟩
            rcases mem_keysOf_addImport member with held | same
            · exact absent held
            · exact apart (alike current (by simp) same)

end Add

structure Gathered (given found : List ImportEntry) : Prop where
  readable : ∀ entry ∈ found, entry.Readable
  bindings : ∀ binding, binding ∈ bindingsOf found ↔ binding ∈ bindingsOf given
  verbatims : ∀ text, text ∈ verbatimsOf found ↔ text ∈ verbatimsOf given
  once : (verbatimsOf found).Nodup

theorem Gathered.readable_of_mem {given found : List ImportEntry} (gathered : Gathered given found)
    {statement : Import} (member : statement ∈ itemsOf found) : statement.Readable :=
  gathered.readable (.item statement) (mem_itemsOf.mp member)

structure Merged (given found : List ImportEntry) : Prop extends Gathered given found where
  keys : OneDefault (· ∈ bindingsOf given) → (keysOf found).Nodup

theorem OneDefault.mono {holds held : Binding → Prop} (single : OneDefault holds)
    (inside : ∀ binding, held binding → holds binding) : OneDefault held :=
  fun path onlyType name other own own' =>
    single path onlyType name other (inside _ own) (inside _ own')

namespace Merged

variable {given found : List ImportEntry}

theorem nil : Merged [] [] where
  readable := by simp
  bindings := by simp
  verbatims := by simp
  once := List.nodup_nil
  keys := fun _ => List.nodup_nil

theorem add_item (merged : Merged given found) {statement : Import}
    (readable : statement.Readable) :
    Merged (given ++ [.item statement]) (addEntry found (.item statement)) where
  readable := addImport_forall (fun _ _ => Import.Readable.merge) readable merged.readable
  bindings := by
    intro binding
    rw [addEntry, mem_bindingsOf_addImport readable merged.readable, merged.bindings]
    simp
  verbatims := by
    intro text
    rw [mem_verbatimsOf_addEntry, merged.verbatims]
    simp [ImportEntry.verbatim?]
  once := nodup_verbatimsOf_addEntry merged.once
  keys := by
    intro single
    have before := merged.keys (single.mono fun binding held => by simp [held])
    apply nodup_keysOf_addImport before
    intro other member same
    apply Import.merges_of_key (merged.readable_of_mem member) readable same
    intro name default name' default'
    simp only [Import.key, Prod.mk.injEq] at same
    apply single statement.path statement.onlyType name name'
    · have held : ⟨other.path, other.onlyType, .default name⟩ ∈ bindingsOf found :=
        mem_bindingsOf.mpr ⟨other, member, Import.mem_bindings.mpr
          ⟨rfl, rfl, Import.default_mem_bounds.mpr default⟩⟩
      rw [merged.bindings, same.1, same.2.1] at held
      simp [held]
    · have held : ⟨statement.path, statement.onlyType, .default name'⟩ ∈ statement.bindings :=
        Import.mem_bindings.mpr ⟨rfl, rfl, Import.default_mem_bounds.mpr default'⟩
      simp [held]

theorem add_verbatim (merged : Merged given found) {text : String}
    (readable : (ImportEntry.verbatim text).Readable) :
    Merged (given ++ [.verbatim text]) (addEntry found (.verbatim text)) where
  readable := addEntry_forall (fun _ _ => Import.Readable.merge) readable merged.readable
  bindings := by
    intro binding
    rw [addEntry, bindingsOf_append, bindingsOf_cons_verbatim, bindingsOf_nil, List.append_nil,
      ← merged.bindings]
    split <;> simp
  verbatims := by
    intro other
    rw [mem_verbatimsOf_addEntry, merged.verbatims]
    simp [ImportEntry.verbatim?, eq_comm]
  once := nodup_verbatimsOf_addEntry merged.once
  keys := by
    intro single
    have before := merged.keys (single.mono fun binding held => by simp [held])
    rw [addEntry]
    split
    · exact before
    · simpa [keysOf] using before

end Merged

theorem merged_mergeImports {existing incoming : List ImportEntry}
    (before : ∀ entry ∈ existing, entry.Readable) (added : ∀ entry ∈ incoming, entry.Readable) :
    Merged (existing ++ incoming) (mergeImports existing incoming) := by
  apply mergeImports_induction existing incoming Merged.nil
  intro done entry found member merged
  have readable : entry.Readable := by
    rcases List.mem_append.mp member with old | new
    · exact before entry old
    · exact added entry new
  cases entry with
  | item statement => exact merged.add_item readable
  | verbatim text => exact merged.add_verbatim readable

section Reads

variable {statement : Import} {entry : ImportEntry} {entries : List ImportEntry}

/-- The key of the statements that bind a name. -/
def Binding.key (binding : Binding) : String × Bool × Option String :=
  (binding.path, binding.onlyType,
    match binding.bound with
    | .space name => some name
    | _ => none)

theorem Import.Readable.plain_of_default (readable : statement.Readable) {name : String}
    (given : name ∈ statement.defaultName) : statement.asName = none := by
  rw [Option.eq_none_iff_forall_not_mem]
  intro space spaced
  rw [(readable.space space spaced).2.1] at given
  cases given

theorem Import.Readable.plain_of_name (readable : statement.Readable) {name : String}
    (member : name ∈ statement.names) : statement.asName = none := by
  rw [Option.eq_none_iff_forall_not_mem]
  intro space spaced
  rw [(readable.space space spaced).2.2] at member
  cases member

theorem Import.Readable.key_of_mem_bindings (readable : statement.Readable) {binding : Binding}
    (member : binding ∈ statement.bindings) : binding.key = statement.key := by
  rcases Import.mem_bindings.mp member with ⟨path, onlyType, bound⟩
  unfold Binding.key Import.key
  rw [path, onlyType]
  unfold Import.bounds at bound
  simp only [List.mem_append, List.mem_map, Option.mem_toList] at bound
  rcases bound with (⟨name, given, shape⟩ | ⟨name, given, shape⟩) | ⟨name, given, shape⟩
  · rw [← shape, readable.plain_of_default given]
  · rw [← shape]
    dsimp only
    rw [given]
  · rw [← shape, readable.plain_of_name given]

theorem Import.Readable.key_of_mem_reads (readable : statement.Readable) {read : Import}
    (member : read ∈ statement.reads) : read.key = statement.key := by
  rcases reads_cases statement with single | ⟨default, given, -, only, double⟩
  · rw [single, List.mem_singleton] at member
    rw [member]
    rfl
  · have plain := readable.plain_of_default given
    rw [double, List.mem_pair] at member
    rcases member with rfl | rfl
    · simp [key, only, plain]
    · simp [key, only, plain]

theorem Import.nodup_bindings (distinct : statement.names.Nodup) : statement.bindings.Nodup := by
  have bounds : statement.bounds.Nodup := by
    unfold bounds
    have named := distinct.map (f := Bound.named) fun _ _ same => by cases same; rfl
    cases statement.defaultName <;> cases statement.asName <;> simp [named]
  exact bounds.map fun _ _ same => by cases same; rfl

theorem Import.Readable.bindings_reads (readable : statement.Readable) :
    statement.reads.flatMap Import.bindings =
      ({ statement with names := statement.names.eraseDups : Import }).bindings := by
  rcases reads_cases statement with single | ⟨default, given, -, only, double⟩
  · simp [single]
  · have plain := readable.plain_of_default given
    simp [double, bindings, bounds, given, plain, only]

theorem Import.Readable.mem_bindings_reads (readable : statement.Readable) (binding : Binding) :
    binding ∈ statement.reads.flatMap Import.bindings ↔ binding ∈ statement.bindings := by
  rw [readable.bindings_reads, mem_bindings, mem_bindings]
  simp [bounds]

theorem Import.Readable.nodup_reads (readable : statement.Readable) :
    (statement.reads.flatMap Import.bindings).Nodup := by
  rw [readable.bindings_reads]
  exact nodup_bindings (nodup_eraseDups _)

theorem itemsOf_map_item (statements : List Import) :
    itemsOf (statements.map .item) = statements := by
  unfold itemsOf
  rw [List.filterMap_map]
  exact List.filterMap_some

theorem itemsOf_reads :
    itemsOf (entries.flatMap ImportEntry.reads) = (itemsOf entries).flatMap Import.reads := by
  induction entries with
  | nil => rfl
  | cons first rest ih =>
      rw [List.flatMap_cons, itemsOf_append, ih]
      cases first with
      | verbatim text => rfl
      | item statement =>
          rw [itemsOf_cons_item, List.flatMap_cons, ImportEntry.reads, itemsOf_map_item]

theorem verbatimsOf_reads :
    verbatimsOf (entries.flatMap ImportEntry.reads) = verbatimsOf entries := by
  induction entries with
  | nil => rfl
  | cons first rest ih =>
      rw [List.flatMap_cons, verbatimsOf_append, ih]
      cases first with
      | verbatim text => rfl
      | item statement =>
          have own : verbatimsOf (statement.reads.map .item) = [] := by
            unfold verbatimsOf
            rw [List.filterMap_map]
            exact List.filterMap_none statement.reads
          rw [ImportEntry.reads, own, verbatimsOf_cons_item, List.nil_append]

theorem bindingsOf_reads : bindingsOf (entries.flatMap ImportEntry.reads) =
    (itemsOf entries).flatMap fun statement => statement.reads.flatMap Import.bindings := by
  rw [bindingsOf, itemsOf_reads, List.flatMap_assoc]

end Reads

/-- Entries that were printed and read again: besides, nothing is bound twice if every path has one
default name. -/
structure Accumulated (given found : List ImportEntry) : Prop extends Gathered given found where
  distinct : OneDefault (· ∈ bindingsOf given) → (bindingsOf found).Nodup

theorem Merged.reads {given found : List ImportEntry} (merged : Merged given found) :
    Accumulated given (found.flatMap ImportEntry.reads) where
  readable := by
    intro read member
    rcases List.mem_flatMap.mp member with ⟨entry, held, inside⟩
    exact (merged.readable entry held).of_reads inside
  bindings := by
    intro binding
    rw [← merged.bindings, bindingsOf_reads, bindingsOf, List.mem_flatMap, List.mem_flatMap]
    refine exists_congr fun statement => and_congr_right fun member => ?_
    exact (merged.readable_of_mem member).mem_bindings_reads binding
  verbatims := by
    intro text
    rw [verbatimsOf_reads, merged.verbatims]
  once := by
    rw [verbatimsOf_reads]
    exact merged.once
  distinct := by
    intro single
    have keys := merged.keys single
    rw [bindingsOf_reads, List.nodup_flatMap]
    refine ⟨fun statement member => (merged.readable_of_mem member).nodup_reads, ?_⟩
    refine (List.pairwise_map.mp keys).imp_of_mem fun {first second} member member' apart => ?_
    intro binding held held'
    have readable := merged.readable_of_mem member
    have readable' := merged.readable_of_mem member'
    have own := readable.key_of_mem_bindings ((readable.mem_bindings_reads binding).mp held)
    have other := readable'.key_of_mem_bindings ((readable'.mem_bindings_reads binding).mp held')
    exact apart (own.symm.trans other)

theorem Accumulated.extend {given found incoming : List ImportEntry}
    (accumulated : Accumulated given found) (added : ∀ entry ∈ incoming, entry.Readable) :
    Accumulated (given ++ incoming) ((mergeImports found incoming).flatMap ImportEntry.reads) := by
  have merged := (merged_mergeImports accumulated.readable added).reads
  have bindings : ∀ binding, binding ∈ bindingsOf (found ++ incoming) ↔
      binding ∈ bindingsOf (given ++ incoming) := by
    intro binding
    rw [bindingsOf_append, bindingsOf_append, List.mem_append, List.mem_append,
      accumulated.bindings]
  refine ⟨⟨merged.readable, ?_, ?_, merged.once⟩, ?_⟩
  · exact fun binding => (merged.bindings binding).trans (bindings binding)
  · intro text
    rw [merged.verbatims, verbatimsOf_append, verbatimsOf_append, List.mem_append, List.mem_append,
      accumulated.verbatims]
  · exact fun single => merged.distinct (single.mono fun binding held => (bindings binding).mp held)

end TypedClient

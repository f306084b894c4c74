import TypedClient.Proofs.Import.Bindings
import TypedClient.Proofs.Import.Shown

namespace TypedClient

namespace Import

variable {a b c : Import}

structure Covers (a b : Import) : Prop where
  alike : a.Alike b
  names : b.names ⊆ a.names
  default : a.shown.defaultName = none → b.shown.defaultName = none

theorem Covers.refl (statement : Import) : statement.Covers statement where
  alike := Alike.refl statement
  names := List.Subset.refl _
  default := id

theorem covers_merge (alike : a.Alike b) : (a.merge b).Covers b where
  alike :=
    { path := alike.path
      onlyType := alike.onlyType
      space := alike.space
      default := by
        intro plain name given other given'
        rcases (mem_defaultName_shown_merge alike plain).mp given with own | added
        · exact alike.default plain name own other given'
        · exact Option.mem_unique added given' }
  names := List.subset_append_right _ _
  default := by
    rw [defaultName_shown_merge]
    exact fun absent => (Option.or_eq_none_iff.mp absent).2

theorem Covers.merge (covers : a.Covers b) (alike : a.Alike c) : (a.merge c).Covers b where
  alike :=
    { path := covers.alike.path
      onlyType := covers.alike.onlyType
      space := covers.alike.space
      default := by
        intro plain name given other given'
        rcases (mem_defaultName_shown_merge alike plain).mp given with own | added
        · exact covers.alike.default plain name own other given'
        · cases own : a.shown.defaultName with
          | none =>
              rw [covers.default own] at given'
              cases given'
          | some first =>
              have same := alike.default plain first own name added
              exact same ▸ covers.alike.default plain first own other given' }
  names := List.Subset.trans covers.names (List.subset_append_left _ _)
  default := by
    rw [defaultName_shown_merge]
    exact fun absent => covers.default (Option.or_eq_none_iff.mp absent).1

theorem Covers.shown_merge (covers : a.Covers b) : (a.merge b).shown = a.shown := by
  have default : (a.merge b).shown.defaultName = a.shown.defaultName := by
    rw [defaultName_shown_merge]
    cases own : a.shown.defaultName with
    | none => exact covers.default own
    | some name => rfl
  have names : (a.merge b).shown.names = a.shown.names := eraseDups_append_of_subset covers.names
  have shape : (a.merge b).shown = { a.shown with
      names := (a.merge b).shown.names, defaultName := (a.merge b).shown.defaultName } := rfl
  rw [shape, default, names]

end Import

namespace ImportEntry

def shown : ImportEntry → ImportEntry
  | item statement => item statement.shown
  | verbatim text => verbatim text

theorem text_shown (entry : ImportEntry) : entry.shown.text = entry.text := by
  cases entry with
  | item statement => exact statement.text_shown
  | verbatim text => rfl

end ImportEntry

theorem importsText_shown (entries : List ImportEntry) :
    importsText (entries.map ImportEntry.shown) = importsText entries := by
  have texts : (entries.map ImportEntry.shown).map ImportEntry.text =
      entries.map ImportEntry.text := by
    simp [ImportEntry.text_shown]
  rw [importsText, texts, importsText]

section Apart

variable {entries : List ImportEntry} {statement other : Import} {entry : ImportEntry}

/-- Entries of which no two can be merged, and no two are the same text. -/
structure IsApart (entries : List ImportEntry) : Prop where
  items : (itemsOf entries).Pairwise fun first second => first.merges second = false
  verbatims : (verbatimsOf entries).Nodup

/-- A statement that merges with none of those that are there, and not with the one that is added,
merges with none afterwards: what is merged stands for less than its parts. -/
theorem apart_addImport (new : other.merges statement = false)
    (all : ∀ current ∈ itemsOf entries, other.merges current = false) :
    ∀ current ∈ itemsOf (addImport statement entries), other.merges current = false := by
  have every : ∀ entry ∈ addImport statement entries, ∀ current ∈ entry.item?,
      other.merges current = false := by
    apply addImport_forall
    · intro first second own _ _ current given
      cases given
      rw [Bool.eq_false_iff, Import.merges_comm]
      intro merges
      have before := (Import.merges_iff.mp merges).of_merge.symm
      exact absurd (Import.merges_iff.mpr before) (by simp [own first rfl])
    · intro current given
      cases given
      exact new
    · intro entry member current given
      exact all current (List.mem_filterMap.mpr ⟨entry, member, given⟩)
  intro current member
  exact every (.item current) (mem_itemsOf.mp member) current rfl

theorem pairwise_addImport
    (apart : (itemsOf entries).Pairwise fun first second => first.merges second = false) :
    (itemsOf (addImport statement entries)).Pairwise
      fun first second => first.merges second = false := by
  induction entries with
  | nil => exact List.pairwise_singleton _ _
  | cons first rest ih =>
      cases first with
      | verbatim text => exact ih apart
      | item current =>
          rcases List.pairwise_cons.mp apart with ⟨own, others⟩
          rw [addImport]
          split
          · refine List.pairwise_cons.mpr ⟨fun second member => ?_, others⟩
            rw [Bool.eq_false_iff]
            intro merges
            have before := (Import.merges_iff.mp merges).of_merge
            exact absurd (Import.merges_iff.mpr before) (by simp [own second member])
          · rename_i differs
            have new : current.merges statement = false := by simpa using differs
            exact List.pairwise_cons.mpr ⟨apart_addImport new own, ih others⟩

theorem addImport_append {others : List ImportEntry}
    (apart : ∀ current ∈ itemsOf entries, current.merges statement = false) :
    addImport statement (entries ++ others) = entries ++ addImport statement others := by
  induction entries with
  | nil => rfl
  | cons first rest ih =>
      cases first with
      | verbatim text => rw [List.cons_append, addImport, ih apart, List.cons_append]
      | item current =>
          rcases List.forall_mem_cons.mp apart with ⟨own, later⟩
          rw [List.cons_append, addImport, if_neg (by simp [own]), ih later, List.cons_append]

theorem IsApart.addEntry (apart : IsApart entries) (entry : ImportEntry) :
    IsApart (addEntry entries entry) where
  items := by
    cases entry with
    | item statement => exact pairwise_addImport apart.items
    | verbatim text =>
        rw [TypedClient.addEntry]
        split
        · exact apart.items
        · simpa using apart.items
  verbatims := nodup_verbatimsOf_addEntry apart.verbatims

theorem isApart_mergeImports (existing incoming : List ImportEntry) :
    IsApart (mergeImports existing incoming) :=
  mergeImports_induction (motive := fun _ found => IsApart found) existing incoming
    ⟨List.Pairwise.nil, List.nodup_nil⟩ fun _ entry _ _ apart => apart.addEntry entry

theorem addEntry_of_apart (apart : IsApart (entries ++ [entry])) :
    addEntry entries entry = entries ++ [entry] := by
  cases entry with
  | item statement =>
      have items := apart.items
      rw [itemsOf_append, List.pairwise_append] at items
      have added : addImport statement (entries ++ []) = entries ++ [.item statement] :=
        addImport_append fun current member => items.2.2 current member statement (by simp)
      rwa [List.append_nil] at added
  | verbatim text =>
      have once := apart.verbatims
      rw [verbatimsOf_append, List.nodup_append] at once
      have new : .verbatim text ∉ entries := fun held =>
        once.2.2 text (mem_verbatimsOf.mpr held) text (by simp) rfl
      rw [addEntry, if_neg (by simpa using new)]

theorem foldl_addEntry_of_apart (apart : IsApart entries) :
    entries.foldl addEntry [] = entries := by
  induction entries using List.reverseRecOn with
  | nil => rfl
  | append_singleton done entry ih =>
      have before : IsApart done := by
        have items := apart.items
        have once := apart.verbatims
        rw [itemsOf_append, List.pairwise_append] at items
        rw [verbatimsOf_append, List.nodup_append] at once
        exact ⟨items.1, once.1⟩
      rw [List.foldl_append, ih before, List.foldl_cons, List.foldl_nil, addEntry_of_apart apart]

theorem mergeImports_mergeImports (a b c : List ImportEntry) :
    mergeImports (mergeImports a b) c = c.foldl addEntry (mergeImports a b) := by
  rw [mergeImports, List.foldl_append, foldl_addEntry_of_apart (isApart_mergeImports a b)]

theorem mergeImports_append (a b c : List ImportEntry) :
    mergeImports a (b ++ c) = c.foldl addEntry (mergeImports a b) := by
  rw [mergeImports, mergeImports, ← List.append_assoc, List.foldl_append]

end Apart

section Absorbed

variable {entries : List ImportEntry} {statement other : Import} {entry : ImportEntry}

def Absorbs (statement : Import) : List ImportEntry → Prop
  | [] => False
  | .item current :: rest =>
    current.Covers statement ∨ (current.merges statement = false ∧ Absorbs statement rest)
  | .verbatim _ :: rest => Absorbs statement rest

theorem absorbs_addImport (statement : Import) (entries : List ImportEntry) :
    Absorbs statement (addImport statement entries) := by
  induction entries with
  | nil => exact .inl (Import.Covers.refl statement)
  | cons first rest ih =>
      cases first with
      | verbatim text => exact ih
      | item current =>
          rw [addImport]
          split
          · rename_i merges
            exact .inl (Import.covers_merge (Import.merges_iff.mp merges))
          · rename_i apart
            exact .inr ⟨by simpa using apart, ih⟩

theorem Absorbs.addImport (absorbs : Absorbs statement entries) (other : Import) :
    Absorbs statement (addImport other entries) := by
  induction entries with
  | nil => exact absorbs.elim
  | cons first rest ih =>
      cases first with
      | verbatim text => exact ih absorbs
      | item current =>
          rw [TypedClient.addImport]
          split
          · rename_i merges
            have alike := Import.merges_iff.mp merges
            rcases absorbs with covers | ⟨apart, later⟩
            · exact .inl (covers.merge alike)
            · refine .inr ⟨?_, later⟩
              rw [Bool.eq_false_iff] at apart ⊢
              exact fun still => apart (Import.merges_iff.mpr (Import.merges_iff.mp still).of_merge)
          · exact absorbs.imp_right (And.imp_right ih)

theorem Absorbs.append (absorbs : Absorbs statement entries) (others : List ImportEntry) :
    Absorbs statement (entries ++ others) := by
  induction entries with
  | nil => exact absorbs.elim
  | cons first rest ih =>
      cases first with
      | verbatim text => exact ih absorbs
      | item current => exact absorbs.imp_right (And.imp_right ih)

theorem Absorbs.shown_addImport (absorbs : Absorbs statement entries) :
    (TypedClient.addImport statement entries).map ImportEntry.shown =
      entries.map ImportEntry.shown := by
  induction entries with
  | nil => exact absorbs.elim
  | cons first rest ih =>
      cases first with
      | verbatim text => rw [TypedClient.addImport, List.map_cons, List.map_cons, ih absorbs]
      | item current =>
          rw [TypedClient.addImport]
          rcases absorbs with covers | ⟨apart, later⟩
          · rw [if_pos (Import.merges_iff.mpr covers.alike), List.map_cons, List.map_cons,
              ImportEntry.shown, ImportEntry.shown, covers.shown_merge]
          · rw [if_neg (by simp [apart]), List.map_cons, List.map_cons, ih later]

def AbsorbsEntry (entries : List ImportEntry) : ImportEntry → Prop
  | .item statement => Absorbs statement entries
  | .verbatim text => .verbatim text ∈ entries

theorem absorbsEntry_addEntry (entries : List ImportEntry) (entry : ImportEntry) :
    AbsorbsEntry (addEntry entries entry) entry := by
  cases entry with
  | item statement => exact absorbs_addImport statement entries
  | verbatim text =>
      rw [AbsorbsEntry, ← mem_verbatimsOf, mem_verbatimsOf_addEntry]
      exact .inr rfl

theorem AbsorbsEntry.addEntry (absorbs : AbsorbsEntry entries entry) (added : ImportEntry) :
    AbsorbsEntry (addEntry entries added) entry := by
  cases entry with
  | verbatim text =>
      rw [AbsorbsEntry, ← mem_verbatimsOf, mem_verbatimsOf_addEntry]
      exact .inl (mem_verbatimsOf.mpr absorbs)
  | item statement =>
      cases added with
      | item other => exact Absorbs.addImport absorbs other
      | verbatim text =>
          rw [TypedClient.addEntry]
          split
          · exact absorbs
          · exact Absorbs.append absorbs _

theorem AbsorbsEntry.shown_addEntry (absorbs : AbsorbsEntry entries entry) :
    (TypedClient.addEntry entries entry).map ImportEntry.shown = entries.map ImportEntry.shown := by
  cases entry with
  | item statement => exact Absorbs.shown_addImport absorbs
  | verbatim text => rw [TypedClient.addEntry, if_pos (by simpa [AbsorbsEntry] using absorbs)]

/-- What is printed stays if all that is added is absorbed already. -/
theorem shown_foldl_addEntry {added : List ImportEntry}
    (absorbs : ∀ entry ∈ added, AbsorbsEntry entries entry) :
    (added.foldl addEntry entries).map ImportEntry.shown = entries.map ImportEntry.shown := by
  induction added generalizing entries with
  | nil => rfl
  | cons first rest ih =>
      rcases List.forall_mem_cons.mp absorbs with ⟨own, others⟩
      rw [List.foldl_cons, ih fun entry member => (others entry member).addEntry first,
        own.shown_addEntry]

theorem absorbsEntry_mergeImports {existing incoming : List ImportEntry}
    (member : entry ∈ existing ++ incoming) :
    AbsorbsEntry (mergeImports existing incoming) entry := by
  have every : ∀ entry ∈ existing ++ incoming,
      AbsorbsEntry (mergeImports existing incoming) entry := by
    apply mergeImports_induction
      (motive := fun done found => ∀ entry ∈ done, AbsorbsEntry found entry)
    · simp
    · intro done added found _ before entry member
      rcases List.mem_append.mp member with old | new
      · exact (before entry old).addEntry added
      · rw [List.mem_singleton.mp new]
        exact absorbsEntry_addEntry found added
  exact every entry member

end Absorbed

theorem mem_shownBindings_mergeImports {existing incoming : List ImportEntry}
    (alone : ∀ statement ∈ itemsOf (existing ++ incoming), statement.Alone) (binding : Binding) :
    binding ∈ shownBindings (mergeImports existing incoming) ↔
      binding ∈ shownBindings existing ∨ binding ∈ shownBindings incoming := by
  rw [← List.mem_append, ← shownBindings_append]
  apply mergeImports_induction
    (motive := fun done found => binding ∈ shownBindings found ↔ binding ∈ shownBindings done)
  · rfl
  · intro done entry found member before
    cases entry with
    | item statement =>
        have own := alone statement (mem_itemsOf.mpr member)
        rw [addEntry, mem_shownBindings_addImport own, before]
        simp
    | verbatim text =>
        rw [addEntry]
        split
        · simpa using before
        · simpa using before

theorem mem_verbatimsOf_mergeImports {existing incoming : List ImportEntry} (text : String) :
    text ∈ verbatimsOf (mergeImports existing incoming) ↔
      text ∈ verbatimsOf existing ∨ text ∈ verbatimsOf incoming := by
  rw [← List.mem_append, ← verbatimsOf_append]
  apply mergeImports_induction
    (motive := fun done found => text ∈ verbatimsOf found ↔ text ∈ verbatimsOf done)
  · rfl
  · intro done entry found _ before
    rw [mem_verbatimsOf_addEntry, before]
    cases entry <;> simp [ImportEntry.verbatim?, eq_comm]

/-- Merging loses nothing: its result is apart, binds and keeps what was given, can be merged in
steps, and prints the same when what it holds is merged again. -/
theorem mergeImports_lossless (a b c : List ImportEntry)
    (alone : ∀ statement ∈ itemsOf (a ++ b), statement.Alone) :
    IsApart (mergeImports a b) ∧
      (∀ binding, binding ∈ shownBindings (mergeImports a b) ↔
        binding ∈ shownBindings a ∨ binding ∈ shownBindings b) ∧
      (∀ text, text ∈ verbatimsOf (mergeImports a b) ↔
        text ∈ verbatimsOf a ∨ text ∈ verbatimsOf b) ∧
      mergeImports (mergeImports a b) c = mergeImports a (b ++ c) ∧
      importsText (mergeImports (mergeImports a b) b) = importsText (mergeImports a b) := by
  refine ⟨isApart_mergeImports a b, mem_shownBindings_mergeImports alone,
    mem_verbatimsOf_mergeImports, ?_, ?_⟩
  · rw [mergeImports_mergeImports, mergeImports_append]
  · have absorbs : ∀ entry ∈ b, AbsorbsEntry (mergeImports a b) entry :=
      fun entry member => absorbsEntry_mergeImports (List.mem_append_right a member)
    rw [← importsText_shown, mergeImports_mergeImports, shown_foldl_addEntry absorbs,
      importsText_shown]

def storeImports : List ImportEntry :=
  [.item { path := "./store", defaultName := some "first" },
    .item { path := "./store", defaultName := some "second" },
    .verbatim "import legacy = require('legacy');"]

def incomingStoreImports : List ImportEntry :=
  [.item { path := "./store", names := ["load"] },
    .item { path := "./store", asName := some "store" },
    .verbatim "import legacy = require('legacy');",
    .item { path := "./store", defaultName := some "second", names := ["save"] }]

theorem mergeImports_lossless_store :
    (∀ statement ∈ itemsOf (storeImports ++ incomingStoreImports), statement.Alone) ∧
      IsApart (mergeImports storeImports incomingStoreImports) ∧
      importsText (mergeImports (mergeImports storeImports incomingStoreImports)
        incomingStoreImports) = importsText (mergeImports storeImports incomingStoreImports) := by
  have alone : ∀ statement ∈ itemsOf (storeImports ++ incomingStoreImports), statement.Alone := by
    decide
  have lossless := mergeImports_lossless storeImports incomingStoreImports [] alone
  exact ⟨alone, lossless.1, lossless.2.2.2.2⟩

/-- Names without a default name go to the first statement of their path. -/
example : mergeImports storeImports incomingStoreImports =
    [.item { path := "./store", defaultName := some "first", names := ["load"] },
      .item { path := "./store", defaultName := some "second", names := ["save"] },
      .verbatim "import legacy = require('legacy');",
      .item { path := "./store", asName := some "store" }] := by
  decide

end TypedClient

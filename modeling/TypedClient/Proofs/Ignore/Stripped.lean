import TypedClient.Proofs.Interface.Pieces
import TypedClient.Proofs.TypeExpr.Spelling

namespace TypedClient

/-- The entry is neither the name itself nor, unless the name is a URL, the file it decodes to. -/
structure Misses (entry name : String) : Prop where
  text : entry ≠ name
  file : isUrl name = false → entry ≠ (SchemaName.parse [] name).fileName

theorem isAllowed_eq (ignores : List Ignore) (name : String) :
    isAllowed ignores name = (name == "" || !(ignores.any (Ignore.hits name) ||
      (!isUrl name &&
        (ignores.filterMap Ignore.name?).contains (SchemaName.parse [] name).fileName))) := by
  cases ignores with
  | nil => simp [isAllowed]
  | cons first rest => simp [isAllowed]

theorem isAllowed_insert {before after : List Ignore} {entry name : String}
    (misses : Misses entry name) :
    isAllowed (before ++ .name entry :: after) name = isAllowed (before ++ after) name := by
  have other : (Ignore.name entry).hits name = false := by
    simpa [Ignore.hits] using misses.text
  have file : (!isUrl name && (SchemaName.parse [] name).fileName == entry) = false := by
    cases url : isUrl name with
    | true => rfl
    | false =>
        have differs := misses.file url
        simpa using differs.symm
  simp only [isAllowed_eq, List.any_append, List.any_cons, other, Bool.false_or,
    List.filterMap_append, List.filterMap_cons, Ignore.name?, List.contains_append,
    List.contains_cons, Bool.and_or_distrib_left, file]

theorem allowedType_empty (context : FieldContext) :
    allowedType context "" = if context.ignores.isEmpty then "" else "any" := by
  simp [allowedType, stripIgnored]

theorem allowedType_given (context : FieldContext) {type : String} (given : type ≠ "") :
    allowedType context type = if stripIgnored context.ignores type = "" then "any"
      else stripIgnored context.ignores type := by
  cases empty : context.ignores.isEmpty with
  | true => simp [allowedType, stripIgnored, empty, given]
  | false => simp [allowedType, empty]

def TypeNode.wrappers : TypeNode → List String
  | ⟨name, [], _⟩ => [name]
  | ⟨name, first :: _, _⟩ => name :: first.wrappers

theorem TypeNode.name_mem_wrappers (node : TypeNode) : node.name ∈ node.wrappers := by
  obtain ⟨name, args, depth⟩ := node
  cases args with
  | nil => simp [wrappers]
  | cons first rest => simp [wrappers]

/-- A name that is compared with the entries: base types are never left out. -/
structure IsLookedUp (name : String) : Prop where
  given : name ≠ ""
  foreign : isBaseType name = false

def staysOn (ignores : List Ignore) (name : String) : Bool :=
  name == "" || isBaseType name || isAllowed ignores name

section Lists

variable {first second : List Ignore}

theorem staysOn_congr {name : String}
    (agree : IsLookedUp name → isAllowed first name = isAllowed second name) :
    staysOn first name = staysOn second name := by
  by_cases given : name = ""
  · simp [staysOn, given]
  · cases foreign : isBaseType name with
    | true => simp [staysOn, foreign]
    | false => simp [staysOn, agree ⟨given, foreign⟩]

theorem stripNode_stays {ignores : List Ignore} {name : String}
    (stays : staysOn ignores name = true) (args : List TypeNode) (extra depth : Nat) :
    stripNode ignores extra ⟨name, args, depth⟩ = some ⟨name, args, depth + extra⟩ := by
  rw [staysOn] at stays
  cases args with
  | nil => rw [stripNode, if_pos stays]
  | cons first rest => rw [stripNode, if_pos stays]

theorem stripNode_skips {ignores : List Ignore} {name : String}
    (skips : staysOn ignores name = false) (args : List TypeNode) (extra depth : Nat) :
    stripNode ignores extra ⟨name, args, depth⟩ =
      args.head?.bind (stripNode ignores (extra + depth)) := by
  rw [staysOn] at skips
  cases args with
  | nil =>
      rw [stripNode, skips]
      rfl
  | cons first rest =>
      rw [stripNode, skips]
      rfl

theorem stripNode_congr {node : TypeNode} (extra : Nat)
    (agree : ∀ name ∈ node.wrappers, IsLookedUp name →
      isAllowed first name = isAllowed second name) :
    stripNode first extra node = stripNode second extra node := by
  induction node using TypeNode.wrappers.induct generalizing extra with
  | case1 name depth =>
      have same : staysOn first name = staysOn second name :=
        staysOn_congr (agree name (by simp [TypeNode.wrappers]))
      cases stays : staysOn second name with
      | true => rw [stripNode_stays stays, stripNode_stays (same.trans stays)]
      | false =>
          rw [stripNode_skips stays, stripNode_skips (same.trans stays)]
          rfl
  | case2 name inner rest depth ih =>
      have same : staysOn first name = staysOn second name :=
        staysOn_congr (agree name (by simp [TypeNode.wrappers]))
      have inside := ih (extra + depth) fun name member =>
        agree name (by simp [TypeNode.wrappers, member])
      cases stays : staysOn second name with
      | true => rw [stripNode_stays stays, stripNode_stays (same.trans stays)]
      | false =>
          rw [stripNode_skips stays, stripNode_skips (same.trans stays)]
          exact inside

/-- Two lists that allow the same wrappers of a type leave the same of it, if both hold entries. -/
theorem stripIgnored_congr {type : String} (filled : first.isEmpty = second.isEmpty)
    (agree : isPlainType type = true → ∀ name ∈ (TypeNode.parse type).wrappers, IsLookedUp name →
      isAllowed first name = isAllowed second name) :
    stripIgnored first type = stripIgnored second type := by
  cases plain : isPlainType type with
  | false => simp [stripIgnored, plain]
  | true =>
      rw [stripIgnored, stripIgnored, filled, stripNode_congr 0 (agree plain)]

end Lists

section Lasting

/-- If the text is read as a type at all, it is the text of a tree that is read as it stands: its
names inside brackets are words of ASCII letters and digits, and none of them stands for a list or
a map. -/
def Lasting (type : String) : Prop :=
  isPlainType type = true →
    ∃ node : TypeNode, node.Settled false ∧ node.printsAsIs = true ∧ type = node.toText

theorem ne_empty_of_lasting {type : String} (lasting : Lasting type) : type ≠ "" := by
  intro empty
  have plain : isPlainType type = true := by
    rw [empty]
    rfl
  obtain ⟨⟨name, args, depth⟩, settled, asIs, same⟩ := lasting plain
  have read := TypeExpr.parse_toText settled asIs
  rw [← same, empty] at read
  obtain rfl : "" = name := congrArg TypeNode.name read
  exact settled.1.given rfl

/-- Where nothing is taken off, a lasting type stays as it is. -/
theorem stripIgnored_of_lasting {ignores : List Ignore} {type : String} (lasting : Lasting type)
    (stays : isPlainType type = true → staysOn ignores (TypeNode.parse type).name = true) :
    stripIgnored ignores type = type := by
  cases plain : isPlainType type with
  | false => simp [stripIgnored, plain]
  | true =>
      obtain ⟨⟨name, args, depth⟩, settled, asIs, same⟩ := lasting plain
      have read := TypeExpr.parse_toText settled asIs
      have kept := stays plain
      rw [same, read] at kept
      rw [same, stripIgnored, read, stripNode_stays kept]
      simp

theorem plain_baseType {type : String} (base : isBaseType type = true) :
    type ≠ "" ∧ (∀ c ∈ type.toList, c.isAlphanum = true) ∧ type ≠ "List" := by
  have all : ∀ type ∈ baseTypes,
      type ≠ "" ∧ type.toList.all Char.isAlphanum = true ∧ type ≠ "List" := by decide
  obtain ⟨given, plain, other⟩ := all type (List.contains_iff_mem.mp base)
  exact ⟨given, List.all_eq_true.mp plain, other⟩

theorem toText_baseType {type : String} (base : isBaseType type = true) :
    (⟨type, [], 0⟩ : TypeNode).printsAsIs = true ∧ (⟨type, [], 0⟩ : TypeNode).toText = type := by
  obtain ⟨-, -, differs⟩ := plain_baseType base
  constructor
  · simp [TypeNode.printsAsIs, TypeNode.allPrintAsIs, differs]
  · simp [TypeNode.toText, TypeNode.render, TypeNode.renderAll, TypeNode.arraySuffix, differs]

end Lasting

section Insertion

variable {before after : List Ignore} {entry type : String}

/-- An entry that none of the wrappers meets leaves a type as the other entries do. -/
theorem stripIgnored_insert
    (misses : isPlainType type = true → ∀ name ∈ (TypeNode.parse type).wrappers, IsLookedUp name →
      Misses entry name)
    (lasting : before ++ after = [] → Lasting type) :
    stripIgnored (before ++ .name entry :: after) type = stripIgnored (before ++ after) type := by
  have agree : isPlainType type = true → ∀ name ∈ (TypeNode.parse type).wrappers,
      IsLookedUp name →
      isAllowed (before ++ .name entry :: after) name = isAllowed (before ++ after) name :=
    fun plain name member lookedUp => isAllowed_insert (misses plain name member lookedUp)
  by_cases alone : before ++ after = []
  · have all (name : String) : isAllowed (before ++ after) name = true := by
      rw [alone]
      rfl
    have stays : isPlainType type = true →
        staysOn (before ++ .name entry :: after) (TypeNode.parse type).name = true := by
      intro plain
      rw [staysOn_congr (agree plain _ (TypeNode.name_mem_wrappers _))]
      simp [staysOn, all]
    rw [stripIgnored_of_lasting (lasting alone) stays]
    simp [stripIgnored, alone]
  · apply stripIgnored_congr
    · have filled : (before ++ after).isEmpty = false := by simpa using alone
      simp [filled]
    · exact agree

end Insertion

end TypedClient

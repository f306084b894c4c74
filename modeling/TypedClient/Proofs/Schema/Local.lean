import TypedClient.Proofs.Schema.Followed

namespace TypedClient

open Closure

/-- A collection holds under the given keys what the whole holds, and refers to such keys only. -/
structure Covers (keys : List String) (part whole : Schemas) : Prop where
  same : ∀ key ∈ keys, part.find? key = whole.find? key
  known : ∀ entry ∈ part, RefsAmong keys entry.2

section Gathering

variable {remaining : Schemas} {part target : Value} {rest : List Value} {members : Members}

theorem gatherParts_own (own : part.ref? = none) :
    gatherParts remaining (part :: rest) members =
      flattenIn remaining part >>= fun resolved =>
        members.add resolved >>= gatherParts remaining rest := by
  rw [gatherParts, own]

theorem gatherParts_broken {value : Value} {failure : Error} (held : part.ref? = some value)
    (read : value.toText = .error failure) :
    gatherParts remaining (part :: rest) members = .error failure := by
  rw [gatherParts, held]
  dsimp only
  rw [read]
  rfl

theorem gatherParts_absent {ref : String} (held : part.ref? = some (.text ref))
    (absent : remaining.find? (schemaKey ref) = none) :
    gatherParts remaining (part :: rest) members = gatherParts remaining rest members := by
  have read : schemaKey <$> (Value.text ref).toText = .ok (schemaKey ref) := rfl
  rw [gatherParts, held]
  dsimp only
  rw [read]
  dsimp only [bind, Except.bind]
  split
  · rename_i found
    cases absent.symm.trans found
  · rfl

theorem gatherParts_opened {ref : String} (held : part.ref? = some (.text ref))
    (found : remaining.find? (schemaKey ref) = some target) :
    gatherParts remaining (part :: rest) members =
      flattenIn (remaining.without (schemaKey ref)) target >>= fun resolved =>
        members.add resolved >>= gatherParts remaining rest := by
  have read : schemaKey <$> (Value.text ref).toText = .ok (schemaKey ref) := rfl
  rw [gatherParts, held]
  dsimp only
  rw [read]
  dsimp only [bind, Except.bind]
  split
  · rename_i other found'
    cases found.symm.trans found'
    rfl
  · rename_i absent
    cases found.symm.trans absent

end Gathering

theorem RefsAmong.of_follows {keys : List String} {ref : String} {schema : Value}
    (whole : RefsAmong keys schema) (follows : Follows ref schema) : schemaKey ref ∈ keys := by
  have hereditary := RefsAmong.hereditary keys
  induction follows with
  | reference held => exact whole.of_field held
  | variant _ chosen member _ _ ih =>
      refine ih ?_
      rcases chosenVariants_cases chosen with ⟨found, -⟩ | ⟨-, -, found | ⟨-, found⟩⟩
      · exact hereditary.variants whole found _ member
      · exact hereditary.variants whole found _ member
      · exact hereditary.variants whole found _ member
  | item _ form _ _ ih => exact ih (SchemaForm.eq_items form ▸ hereditary.field whole _)
  | entry _ form _ ih => exact ih (SchemaForm.eq_record form ▸ hereditary.field whole _)

namespace Covers

variable {keys : List String} {part whole remaining left : Schemas} {schema : Value} {key : String}

theorem find (covers : Covers keys part whole) (found : part.find? key = some schema) :
    RefsAmong keys schema :=
  covers.known _ (Schemas.mem_of_find found)

theorem without (covers : Covers keys part whole) (closed : String) :
    Covers keys (part.without closed) (whole.without closed) where
  same := by
    intro key inside
    rw [Schemas.find_without, Schemas.find_without, covers.same key inside]
  known entry member := covers.known entry (List.mem_of_mem_filter member)

mutual

theorem flattenIn (remaining left : Schemas) (covers : Covers keys remaining left) (schema : Value)
    (inside : RefsAmong keys schema) :
    flattenIn remaining schema = TypedClient.flattenIn left schema := by
  match schema, inside with
  | .scalar s, _ => rw [TypedClient.flattenIn, TypedClient.flattenIn] <;> simp
  | .list items, _ => rw [TypedClient.flattenIn, TypedClient.flattenIn] <;> simp
  | .object entries, inside =>
      rw [TypedClient.flattenIn, TypedClient.flattenIn]
      split
      · rename_i parts found
        have smaller : sizeOf parts < sizeOf (Value.object entries) := by
          have bound := Entries.sizeOf_find? found
          simp only [Value.list.sizeOf_spec, Value.object.sizeOf_spec] at bound ⊢
          omega
        have hereditary := RefsAmong.hereditary keys
        rw [gatherParts _ _ covers parts {} (hereditary.item (hereditary.find inside found))]
      · rfl
termination_by (remaining.length, sizeOf schema)
decreasing_by exact Prod.Lex.right _ smaller

theorem gatherParts (remaining left : Schemas) (covers : Covers keys remaining left)
    (parts : List Value) (members : Members) (inside : ∀ part ∈ parts, RefsAmong keys part) :
    gatherParts remaining parts members = TypedClient.gatherParts left parts members := by
  match parts, inside with
  | [], _ => rw [TypedClient.gatherParts, TypedClient.gatherParts]
  | first :: rest, inside =>
      rw [List.forall_mem_cons] at inside
      obtain ⟨own, others⟩ := inside
      have shorter : sizeOf rest < sizeOf (first :: rest) := by
        simp only [List.cons.sizeOf_spec]
        omega
      have smaller : sizeOf first < sizeOf (first :: rest) := by
        simp only [List.cons.sizeOf_spec]
        omega
      have later : TypedClient.gatherParts remaining rest = TypedClient.gatherParts left rest :=
        funext fun members => gatherParts _ _ covers rest members others
      cases held : first.ref? with
      | none =>
          rw [gatherParts_own held, gatherParts_own held, flattenIn _ _ covers first own, later]
      | some value =>
          cases read : value.toText with
          | error failure => rw [gatherParts_broken held read, gatherParts_broken held read]
          | ok ref =>
              rw [toText_eq_ok read] at held
              have same := covers.same _ (own.of_ref held)
              cases found : remaining.find? (schemaKey ref) with
              | none =>
                  rw [gatherParts_absent held found,
                    gatherParts_absent held (same.symm.trans found), later]
              | some target =>
                  have fewer := Schemas.length_without_lt found
                  rw [gatherParts_opened held found,
                    gatherParts_opened held (same.symm.trans found),
                    flattenIn _ _ (covers.without _) target (covers.find found), later]
termination_by (remaining.length, sizeOf parts)
decreasing_by
  · exact Prod.Lex.right _ shorter
  · exact Prod.Lex.right _ smaller
  · exact Prod.Lex.left _ _ fewer

end

theorem flatten (covers : Covers keys part whole) (inside : RefsAmong keys schema) :
    flatten part schema = TypedClient.flatten whole schema :=
  covers.flattenIn _ _ schema inside

theorem isModel (covers : Covers keys part whole) (key : String) (inside : RefsAmong keys schema) :
    isModel part key schema = TypedClient.isModel whole key schema := by
  rw [TypedClient.isModel, TypedClient.isModel, covers.flatten inside]

theorem resolveIn (covers : Covers keys remaining left)
    (same : remaining.find? key = left.find? key) :
    resolveIn remaining key = TypedClient.resolveIn left key := by
  induction remaining, key using resolveIn.induct generalizing left with
  | case1 remaining key absent =>
      rw [resolveIn_absent absent, resolveIn_absent (same.symm.trans absent)]
  | case2 remaining key schema found value held next read ih =>
      rw [resolveIn_alias found held, resolveIn_alias (same.symm.trans found) held, read]
      have named := toText_eq_ok read
      subst named
      refine ih (covers.without key) ?_
      exact (covers.without key).same _ ((covers.find found).of_ref held)
  | case3 remaining key schema found value held failure read =>
      rw [resolveIn_alias found held, resolveIn_alias (same.symm.trans found) held, read]
      rfl
  | case4 remaining key schema found own =>
      rw [resolveIn_own found own, resolveIn_own (same.symm.trans found) own]

theorem alikeOn (covers : Covers keys part whole) (mapping : TypeMapping) :
    AlikeOn (· ∈ keys) ⟨mapping, part⟩ ⟨mapping, whole⟩ part whole where
  mapping := rfl
  same inside := covers.same _ inside
  judged _ found := covers.isModel _ (covers.find found)
  closed := by
    intro ref target next _ _ found enters
    have inside := covers.find found
    cases enters with
    | aliased held => exact inside.of_ref held
    | inPlace _ _ follows => exact inside.of_follows follows

theorem typeOf (covers : Covers keys part whole) (mapping : TypeMapping)
    (inside : RefsAmong keys schema) :
    typeOf ⟨mapping, part⟩ part schema = TypedClient.typeOf ⟨mapping, whole⟩ whole schema :=
  (covers.alikeOn mapping).typeOf_eq fun _ => inside.of_follows

end Covers

end TypedClient

import TypedClient.Proofs.Naming.FunctionName
import TypedClient.Proofs.Naming.Url

namespace TypedClient

open Naming

/-- Characters that hold the plain ones of names, and with a character its forms in upper case. -/
structure CaseClosed (Allowed : Char → Prop) : Prop where
  plain : ∀ c, isFieldChar c = true → c.toNat < 128 → Allowed c
  form : ∀ c d, Allowed c → d ∈ Text.upperForm c → Allowed d

def WrittenIn (Allowed : Char → Prop) (name : String) : Prop := ∀ c ∈ name.toList, Allowed c

theorem caseClosed_caseSafe : CaseClosed CaseSafe where
  plain := fun _ => caseSafe_of_ascii
  form := fun _ _ => CaseSafe.form

abbrev Solid : String → Prop := WrittenIn (· ≠ '/')

instance (name : String) : Decidable (Solid name) :=
  decidable_of_iff (name.toList.all (· != '/') = true) (by simp [WrittenIn])

theorem caseClosed_solid : CaseClosed (· ≠ '/') where
  plain := by
    rintro c field - rfl
    exact absurd field (by decide)
  form := by
    rintro c d solid form rfl
    rcases Text.ascii_upperForm form (by decide) with capital | same
    · exact absurd capital (by decide)
    · exact solid same.symm

section Written

variable {Allowed : Char → Prop} {name other : String}

theorem WrittenIn.append (first : WrittenIn Allowed name) (second : WrittenIn Allowed other) :
    WrittenIn Allowed (name ++ other) := by
  intro c member
  rw [String.toList_append, List.mem_append] at member
  exact member.elim (first c) (second c)

theorem WrittenIn.of_append (written : WrittenIn Allowed (name ++ other)) :
    WrittenIn Allowed name ∧ WrittenIn Allowed other := by
  constructor
  · exact fun c member => written c (by simp [member])
  · exact fun c member => written c (by simp [member])

theorem WrittenIn.of_subset (written : WrittenIn Allowed other)
    (inside : name.toList ⊆ other.toList) : WrittenIn Allowed name :=
  fun c member => written c (inside member)

theorem WrittenIn.intercalate {separator : String} {parts : List String}
    (glue : WrittenIn Allowed separator) (written : ∀ part ∈ parts, WrittenIn Allowed part) :
    WrittenIn Allowed (separator.intercalate parts) := by
  induction parts with
  | nil => exact fun c member => absurd member (by simp)
  | cons part rest ih =>
      have own := written part (by simp)
      have later := ih fun other member => written other (by simp [member])
      cases rest with
      | nil => simpa using own
      | cons next others =>
          rw [String.intercalate_cons_cons]
          exact (own.append glue).append later

/-- The name of one member has the characters of the collection, and maybe a `y`. -/
theorem mem_singularize {word : String} {c : Char} (member : c ∈ (singularize word).toList) :
    c ∈ word.toList ∨ c = 'y' := by
  unfold singularize at member
  dsimp only at member
  split at member
  · rw [String.toList_ofList, List.mem_append, List.mem_singleton] at member
    exact member.imp_left List.mem_of_mem_take
  · split at member
    · rw [String.toList_ofList] at member
      exact .inl (List.mem_of_mem_take member)
    · split at member
      · rw [String.toList_ofList] at member
        exact .inl (List.mem_of_mem_take member)
      · exact .inl member

namespace CaseClosed

variable (closed : CaseClosed Allowed)
include closed

theorem ascii (plain : name.toList.all (fun c => isFieldChar c && c.toNat < 128) = true) :
    WrittenIn Allowed name := by
  intro c member
  have own := List.all_eq_true.mp plain c member
  rw [Bool.and_eq_true, decide_eq_true_eq] at own
  exact closed.plain c own.1 own.2

theorem upperFirst (written : WrittenIn Allowed name) : WrittenIn Allowed (upperFirst name) := by
  intro d member
  rw [TypedClient.upperFirst, String.toList_ofList] at member
  cases shape : name.toList with
  | nil =>
      rw [shape] at member
      cases member
  | cons c rest =>
      rw [shape] at member
      rcases List.mem_append.mp member with form | inside
      · exact closed.form c d (written c (by simp [shape])) form
      · exact written d (by simp [shape, inside])

theorem singularize (written : WrittenIn Allowed name) : WrittenIn Allowed (singularize name) := by
  intro c member
  rcases mem_singularize member with inside | rfl
  · exact written c inside
  · exact closed.plain 'y' (by decide) (by decide)

theorem paramSuffix {params : List String}
    (written : ∀ param ∈ params, WrittenIn Allowed (camelCase param)) :
    WrittenIn Allowed (paramSuffix params) := by
  have start : WrittenIn Allowed "By" := closed.ascii (by decide)
  have joint : WrittenIn Allowed "And" := closed.ascii (by decide)
  refine start.append (joint.intercalate ?_)
  intro part member
  obtain ⟨param, inside, rfl⟩ := List.mem_map.mp member
  exact closed.upperFirst (written param inside)

theorem identifier (identifier : isIdentifier name = true) : WrittenIn Allowed name := by
  have plain (c : Char) (inside : (isIdentifierStart c || c.isDigit) = true) : Allowed c := by
    have known : c.isAlphanum = true ∨ c = '_' ∨ c = '$' := by
      simp only [isIdentifierStart, Bool.or_eq_true, beq_iff_eq] at inside
      simp only [Char.isAlphanum, Bool.or_eq_true]
      tauto
    obtain plain | rfl | rfl := known
    · have ascii := Text.ascii_of_isAlphanum plain
      refine closed.plain c ?_ ascii
      simp [isFieldChar, Text.isWord, Text.isAlphanumeric, ascii, plain]
    · exact closed.plain '_' (by decide) (by decide)
    · exact closed.plain '$' (by decide) (by decide)
  unfold isIdentifier at identifier
  split at identifier
  · cases identifier
  · rename_i c rest shape
    rw [Bool.and_eq_true, List.all_eq_true] at identifier
    intro d member
    apply plain d
    rw [shape] at member
    rcases List.mem_cons.mp member with rfl | inside
    · simp [identifier.1]
    · exact identifier.2 d inside

/-- The name of a query interface has the characters of the names that it is made of. -/
theorem query (file : WrittenIn Allowed name) (function : WrittenIn Allowed other) :
    WrittenIn Allowed (TypedClient.upperFirst name ++ TypedClient.upperFirst other ++ "Query") := by
  have ending : WrittenIn Allowed "Query" := closed.ascii (by decide)
  exact ((closed.upperFirst file).append (closed.upperFirst function)).append ending

end CaseClosed

end Written

section Path

variable {Allowed : Char → Prop}

theorem plain_method : ∀ method ∈ httpMethods,
    method.toList.all (fun c => isFieldChar c && c.toNat < 128) = true := by
  decide

/-- The name of a function has the characters of the last fixed segment of its path and of the
parameters behind it, unless it comes from the identifier. -/
theorem writtenIn_nameForm (closed : CaseClosed Allowed) {operation : Operation}
    (known : operation.method ∈ httpMethods)
    (written : operation.tail? = none → ∀ front last, ∀ trailing : List String,
      segmentsOf operation.path = front ++ .name last :: trailing.map .param →
      WrittenIn Allowed last ∧ ∀ param ∈ trailing, WrittenIn Allowed (camelCase param)) :
    WrittenIn Allowed operation.nameForm.text := by
  have method : WrittenIn Allowed operation.method := closed.ascii (plain_method _ known)
  have origin := origin_nameForm operation
  generalize operation.nameForm = form at origin
  cases origin with
  | identifier told => exact closed.identifier (isIdentifier_tail told)
  | parameters untold given path =>
      obtain ⟨last, params⟩ := written untold _ _ _ path
      exact method.append ((closed.upperFirst (closed.singularize last)).append
        (closed.paramSuffix params))
  | spelled untold path spells =>
      -- the spelled parameters stand in the segment itself, wherever they come from
      obtain ⟨last, -⟩ := written untold _ _ [] path
      obtain ⟨-, -, -, whole⟩ := spells
      rw [whole] at last
      obtain ⟨front, back⟩ := last.of_append
      exact method.append ((closed.upperFirst (closed.singularize front)).append back)
  | similar untold path =>
      obtain ⟨last, -⟩ := written untold _ _ [] path
      exact method.append (closed.upperFirst last)
  | plain untold path => exact (written untold _ _ [] path).1
  | index untold path => exact method.append (closed.ascii (by decide))

end Path

section Slash

theorem bracedFrom_subset {segment inner : List Char}
    (braced : Url.bracedFrom segment = some inner) : inner ⊆ segment := by
  fun_induction Url.bracedFrom segment with
  | case1 => cases braced
  | case2 first tail open_line ih => exact List.subset_cons_of_subset _ (ih braced)
  | case3 shortest first tail closed_line name found =>
      obtain rfl := Option.some.inj braced
      dsimp only [shortest] at found
      split at found
      · obtain rfl := Option.some.inj found
        exact List.subset_cons_of_subset _ (List.cons_subset_cons _ (List.takeWhile_subset _))
      · cases found
  | case4 shortest first tail closed_line absent ih =>
      exact List.subset_cons_of_subset _ (ih braced)
  | case5 c rest other ih => exact List.subset_cons_of_subset _ (ih braced)

theorem parameter?_subset {segment inner : List Char}
    (found : Url.parameter? segment = some inner) : inner ⊆ segment := by
  unfold Url.parameter? at found
  split at found
  · rename_i name braced
    obtain rfl := Option.some.inj found
    exact bracedFrom_subset braced
  · unfold Url.colonName? at found
    split at found
    · split at found
      · cases found
      · obtain rfl := Option.some.inj found
        exact List.subset_cons_self _ _
    · cases found

theorem solid_of_param {url name : String} (member : .param name ∈ segmentsOf url) :
    Solid (camelCase name) := by
  obtain ⟨text, inside, same⟩ := List.mem_map.mp member
  have whole := (solid_of_mem_segments inside).2
  unfold Segment.ofText at same
  split at same
  · rename_i inner found
    cases same
    rintro c held rfl
    rw [camelCase, String.toList_ofList, String.toList_ofList] at held
    exact whole (parameter?_subset found (slash_of_joinCamel held))
  · cases same

theorem solid_nameForm {operation : Operation} (known : operation.method ∈ httpMethods) :
    Solid operation.nameForm.text := by
  refine writtenIn_nameForm caseClosed_solid known fun _ front last trailing path => ?_
  have inside : ∀ segment ∈ .name last :: trailing.map .param,
      segment ∈ segmentsOf operation.path := by
    intro segment member
    rw [path]
    exact List.mem_append_right _ member
  constructor
  · rintro c held rfl
    exact (solid_of_name (inside _ (.head _))).2 held
  · intro param member
    exact solid_of_param (inside _ (.tail _ (List.mem_map_of_mem member)))

end Slash

end TypedClient

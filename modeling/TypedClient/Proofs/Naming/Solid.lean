import TypedClient.Naming.SchemaKey
import TypedClient.Proofs.Naming.Characters
import TypedClient.Proofs.Schema.Parts
import TypedClient.Proofs.Text.Part
import TypedClient.Proofs.TypeExpr.Named

/-!
Names of schemas without slashes. A name loses what stands in front of the last slash of its first
line, so that only a key with a slash on a later line gives a name with one.
-/

namespace TypedClient

/-- A slash on a line other than the first. -/
def HasLateSlash (text : List Char) : Prop := ['\n', '/'].Sublist text

instance (text : List Char) : Decidable (HasLateSlash text) :=
  inferInstanceAs (Decidable (List.Sublist _ _))

namespace TypeExpr

/-- What is left of a name holds no slash unless one stands on a later line. -/
theorem slash_of_dropPackage {name : List Char} (member : '/' ∈ dropPackage name) :
    HasLateSlash name := by
  have behind (inside : '/' ∈ name.drop (name.takeWhile (· != '\n')).length) :
      HasLateSlash name := by
    rw [Text.drop_takeWhile] at inside
    cases shape : name.dropWhile (· != '\n') with
    | nil =>
        rw [shape] at inside
        cases inside
    | cons c more =>
        have stopped := List.head_dropWhile_not (· != '\n')
          (by rw [shape]; simp : name.dropWhile (· != '\n') ≠ [])
        simp only [shape, List.head_cons, bne_eq_false_iff_eq] at stopped
        subst stopped
        have late : '/' ∈ more := by simpa [shape] using inside
        have end_of_name : ('\n' :: more).Sublist name := by
          rw [← shape]
          exact (List.dropWhile_suffix _).sublist
        exact ((List.singleton_sublist.mpr late).cons_cons '\n').trans end_of_name
  unfold dropPackage at member
  dsimp only at member
  split at member
  · rcases List.mem_append.mp member with last | later
    · have unmarked := List.mem_takeWhile_imp (List.mem_reverse.mp last)
      exact absurd unmarked (by decide)
    · exact behind later
  · rename_i unmarked
    rw [← List.takeWhile_append_dropWhile (p := (· != '\n')) (l := name)] at member
    rcases List.mem_append.mp member with first | later
    · exact absurd (List.any_eq_true.mpr ⟨'/', first, by decide⟩) unmarked
    · rw [← Text.drop_takeWhile] at later
      exact behind later

theorem cleanName_solid {name : String} (settled : ¬ HasLateSlash name.toList) (nested : Bool) :
    Solid (cleanName nested name) := by
  rintro c member rfl
  unfold cleanName at member
  dsimp only at member
  rw [String.toList_ofList] at member
  split at member
  · exact settled (slash_of_dropPackage member)
  · exact settled (slash_of_dropPackage (List.mem_of_mem_filter member))

end TypeExpr

section Keys

theorem TypeMapping.solid_find {mapping : TypeMapping} (solid : ∀ entry ∈ mapping, Solid entry.2)
    {name : String} (given : Solid name) : Solid ((mapping.find? name).getD name) := by
  have base : ∀ entry ∈ baseMapping, Solid entry.2 := by decide
  cases found : mapping.find? name with
  | none => exact given
  | some target =>
      rw [Option.getD_some]
      unfold TypeMapping.find? at found
      rcases Option.or_eq_some_iff.mp found with user | ⟨-, primitive⟩
      · exact solid _ (mem_of_lookup user)
      · exact base _ (mem_of_lookup primitive)

theorem dropArguments_sublist (text : List Char) : (dropArguments text).Sublist text := by
  induction text with
  | nil => exact List.Sublist.refl _
  | cons c rest ih =>
      rw [dropArguments]
      split
      · exact (List.dropWhile_suffix _).sublist.cons c
      · exact ih.cons_cons c

theorem solid_fileNameOf {typeName : String} (solid : Solid typeName) :
    Solid (fileNameOf typeName) := by
  apply solid.of_subset
  have cut := dropArguments_sublist typeName.toList
  have unmarked := Text.replaceFrom_sublist "[]".toList 0 (dropArguments typeName.toList)
  unfold fileNameOf replaceText
  simp only [String.toList_ofList]
  exact (unmarked.trans cut).subset

theorem schemaKey_sublist (ref : String) : (schemaKey ref).toList.Sublist ref.toList := by
  unfold schemaKey replaceText
  rw [String.toList_ofList]
  exact Text.replaceFrom_sublist _ 0 _

/-- A key with slashes on its first line only, or none, decodes to names without a slash. -/
theorem solid_parse {mapping : TypeMapping} (solid : ∀ entry ∈ mapping, Solid entry.2)
    {ref : String} (settled : ¬ HasLateSlash ref.toList) :
    Solid (SchemaName.parse mapping ref).fileName := by
  have tokens (nested : Bool) (text : String)
      (member : .name text ∈ TypeExpr.tokens (schemaKey ref)) :
      Solid (TypeExpr.cleanName nested text) := by
    have inside := (TypeExpr.sublist_of_mem_tokensFrom member).trans (schemaKey_sublist ref)
    exact TypeExpr.cleanName_solid (fun late => settled (late.trans inside)) nested
  have named := TypeExpr.named_readNode (by decide : Solid "") (tokens false) (tokens true)
  have renamed (name : String) (given : Solid name) := TypeMapping.solid_find solid given
  exact solid_fileNameOf (written_render (by decide) renamed named false)

end Keys

end TypedClient

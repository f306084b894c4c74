import TypedClient.Import.Merge
import TypedClient.Import.Printer
import TypedClient.Proofs.Distinct

namespace TypedClient

namespace Import

variable {a b c : Import}

/-- A statement as it is printed: each name once, and no default or namespace name that is empty. -/
def shown (statement : Import) : Import :=
  { statement with
    names := statement.names.eraseDups
    defaultName := statement.defaultName.filter (· != "")
    asName := statement.asName.filter (· != "") }

theorem text_shown (statement : Import) : statement.shown.text = statement.text := by
  have names : statement.names.eraseDups.eraseDups = statement.names.eraseDups :=
    eraseDups_of_nodup (nodup_eraseDups _)
  unfold text shown
  simp [names]

section Names

variable {name other : Option String}

theorem filter_of_given (given : isGiven name = true) : name.filter (· != "") = name := by
  cases name with
  | none => rfl
  | some own => exact Option.filter_some_pos given

theorem filter_of_absent (absent : isGiven name = false) : name.filter (· != "") = none := by
  cases name with
  | none => rfl
  | some own => exact Option.filter_some_neg (by simpa [isGiven] using absent)

theorem isGiven_eq (name : Option String) : isGiven name = (name.filter (· != "")).isSome := by
  cases given : isGiven name with
  | false => rw [filter_of_absent given, Option.isSome_none]
  | true =>
      rw [filter_of_given given]
      cases name with
      | none => cases given
      | some own => rfl

/-- Names are compared as they are if one of them binds something. -/
theorem filter_inj_of_given (either : (isGiven name || isGiven other) = true) :
    name.filter (· != "") = other.filter (· != "") ↔ name = other := by
  constructor
  · intro same
    have alike : isGiven name = isGiven other := by rw [isGiven_eq, isGiven_eq, same]
    rw [alike, Bool.or_self] at either
    rwa [filter_of_given (alike.trans either), filter_of_given either] at same
  · exact congrArg _

/-- Names agree unless both bind something and they differ. -/
theorem agree_iff :
    (!(isGiven name && isGiven other) || name == other) = true ↔
      ∀ own ∈ name.filter (· != ""), ∀ second ∈ other.filter (· != ""), own = second := by
  cases first : isGiven name with
  | false => simp [filter_of_absent first]
  | true =>
      cases second : isGiven other with
      | false => simp [filter_of_absent second]
      | true =>
          rw [filter_of_given first, filter_of_given second]
          cases name with
          | none => cases first
          | some own =>
              cases other with
              | none => cases second
              | some second => simp

end Names

/-- Statements that may stand as one: a namespace under one name, or no two default names. -/
structure Alike (a b : Import) : Prop where
  path : a.path = b.path
  onlyType : a.onlyType = b.onlyType
  space : a.shown.asName = b.shown.asName
  default : a.shown.asName = none →
    ∀ name ∈ a.shown.defaultName, ∀ other ∈ b.shown.defaultName, name = other

theorem merges_of_space (path : a.path = b.path) (onlyType : a.onlyType = b.onlyType)
    (either : (isGiven a.asName || isGiven b.asName) = true) :
    a.merges b = (a.asName == b.asName) := by
  simp [merges, path, onlyType, either]

theorem merges_of_plain (path : a.path = b.path) (onlyType : a.onlyType = b.onlyType)
    (neither : (isGiven a.asName || isGiven b.asName) = false) :
    a.merges b = (!(isGiven a.defaultName && isGiven b.defaultName) ||
      a.defaultName == b.defaultName) := by
  simp only [merges, path, onlyType, neither]
  cases isGiven a.defaultName && isGiven b.defaultName <;> simp

theorem merges_iff : a.merges b = true ↔ a.Alike b := by
  have space : ∀ statement : Import,
      statement.shown.asName = statement.asName.filter (· != "") := fun _ => rfl
  by_cases path : a.path = b.path
  · by_cases onlyType : a.onlyType = b.onlyType
    · cases either : isGiven a.asName || isGiven b.asName with
      | true =>
          rw [merges_of_space path onlyType either, beq_iff_eq, ← filter_inj_of_given either]
          constructor
          · intro same
            refine ⟨path, onlyType, same, fun absent => ?_⟩
            -- Neither would bind a namespace, but one of them does.
            rw [isGiven_eq, isGiven_eq, ← same, ← space, absent] at either
            cases either
          · exact Alike.space
      | false =>
          rcases Bool.or_eq_false_iff.mp either with ⟨plain, plain'⟩
          have absent : a.shown.asName = none := filter_of_absent plain
          have absent' : b.shown.asName = none := filter_of_absent plain'
          rw [merges_of_plain path onlyType either, agree_iff]
          constructor
          · exact fun single => ⟨path, onlyType, absent.trans absent'.symm, fun _ => single⟩
          · exact fun alike => alike.default absent
    · have differ : ¬ a.Alike b := fun alike => onlyType alike.onlyType
      simp [merges, onlyType, differ]
  · have differ : ¬ a.Alike b := fun alike => path alike.path
    simp [merges, path, differ]

theorem Alike.refl (statement : Import) : statement.Alike statement where
  path := rfl
  onlyType := rfl
  space := rfl
  default := fun _ _ given _ given' => Option.mem_unique given given'

theorem Alike.symm (alike : a.Alike b) : b.Alike a where
  path := alike.path.symm
  onlyType := alike.onlyType.symm
  space := alike.space.symm
  default := fun plain name given other given' =>
    (alike.default (alike.space.trans plain) other given' name given).symm

theorem merges_comm (a b : Import) : a.merges b = b.merges a :=
  Bool.eq_iff_iff.mpr <| merges_iff.trans <|
    Iff.trans ⟨Alike.symm, Alike.symm⟩ merges_iff.symm

/-- The first default name counts if it binds something. -/
theorem defaultName_shown_merge :
    (a.merge b).shown.defaultName = a.shown.defaultName.or b.shown.defaultName := by
  unfold merge shown
  dsimp only
  cases given : isGiven a.defaultName with
  | true =>
      rw [if_pos rfl, filter_of_given given]
      cases own : a.defaultName with
      | none => simp [own, isGiven] at given
      | some name => rfl
  | false =>
      rw [if_neg (by simp), filter_of_absent given]
      rfl

theorem mem_defaultName_shown_merge (alike : a.Alike b) (plain : a.shown.asName = none)
    {name : String} : name ∈ (a.merge b).shown.defaultName ↔
      name ∈ a.shown.defaultName ∨ name ∈ b.shown.defaultName := by
  rw [defaultName_shown_merge]
  cases own : a.shown.defaultName with
  | none => simp
  | some first =>
      constructor
      · exact .inl
      · rintro (given | given)
        · exact given
        · exact congrArg some (alike.default plain first own name given)

/-- A statement that another one was merged into merges with no more than before. -/
theorem Alike.of_merge (alike : (a.merge c).Alike b) : a.Alike b where
  path := alike.path
  onlyType := alike.onlyType
  space := alike.space
  default := by
    intro plain name given other given'
    have kept : name ∈ (a.merge c).shown.defaultName := by
      rw [defaultName_shown_merge, Option.mem_def.mp given]
      rfl
    exact alike.default plain name kept other given'

end Import

end TypedClient

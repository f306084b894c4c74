import TypedClient.Interface.Model
import TypedClient.Notice

/-!
The models that references lead to, directly or through the fields of other models. Each file holds
one model; of several that share a file the first generic one is kept, or else the first.
-/

namespace TypedClient

structure Model where
  sourceCode : String
  typeName : String
  fileName : String
  fileDir : String := ""
  filePath : String := ""
  refKey : Option String := none
  generics : List String := []
  typeNames : List String := []
  deriving DecidableEq, Repr

structure Reached where
  key : String
  code : ModelCode
  deriving DecidableEq, Repr

def Model.ofReached (reached : Reached) : Model :=
  { sourceCode := reached.code.text
    typeName := reached.code.typeName
    fileName := reached.code.fileName
    filePath := reached.code.fileName ++ ".ts"
    refKey := some reached.key
    generics := reached.code.generics
    typeNames := reached.code.typeNames }

namespace Closure

mutual

def refsOf : Value → List String
  | .scalar _ => []
  | .list items => refsOfItems items
  | .object entries => refsOfEntries entries
termination_by structural value => value

def refsOfItems : List Value → List String
  | [] => []
  | item :: rest => refsOf item ++ refsOfItems rest
termination_by structural items => items

def refsOfEntries : List (Scalar × Value) → List String
  | [] => []
  | entry :: rest => refsOfEntry entry ++ refsOfEntries rest
termination_by structural entries => entries

def refsOfEntry : Scalar × Value → List String
  | (.text "$ref", .text ref) => [schemaKey ref]
  | (_, value) => refsOf value
termination_by structural entry => entry

end

def keysWithin (schemas : Schemas) : List String :=
  (schemas.flatMap fun entry => refsOf entry.2).eraseDups

def fresh (unseen children : List String) : List String :=
  (children.filter (unseen.contains ·)).eraseDups

def leave (unseen new : List String) : List String := unseen.filter (!new.contains ·)

theorem leave_nil (unseen : List String) : leave unseen [] = unseen := by
  simp [leave]

theorem length_leave_lt {unseen new : List String} {key : String} (member : key ∈ new)
    (known : key ∈ unseen) : (leave unseen new).length < unseen.length := by
  apply List.length_filter_lt_length_iff_exists.mpr
  exact ⟨key, known, by simpa using member⟩

theorem mem_unseen_of_mem_fresh {unseen children : List String} {key : String}
    (member : key ∈ fresh unseen children) : key ∈ unseen := by
  have inside := List.mem_eraseDups.mp member
  simpa using (List.mem_filter.mp inside).2

/-- Visits the queue in order and appends what each visit leads to. Every key is visited once, so
the keys not yet seen and the queue bound the visits. -/
def visit {m : Type → Type} [Monad m] {α : Type} (examine : String → m (Option α))
    (children : α → List String) (unseen queue : List String) : m (List α) :=
  match queue with
  | [] => pure []
  | key :: rest => do
    match ← examine key with
    | none => visit examine children unseen rest
    | some found =>
      let new := fresh unseen (children found)
      let more ← visit examine children (leave unseen new) (rest ++ new)
      return found :: more
termination_by (unseen.length, queue.length)
decreasing_by
  · exact Prod.Lex.right _ (Nat.lt_add_one _)
  · cases same : fresh unseen (children found) with
    | nil =>
      rw [leave_nil, List.append_nil]
      exact Prod.Lex.right _ (Nat.lt_add_one _)
    | cons first more =>
      have member : first ∈ fresh unseen (children found) := by simp [same]
      rw [← same]
      exact Prod.Lex.left _ _ (length_leave_lt member (mem_unseen_of_mem_fresh member))

end Closure

/-- The interface of the model that a key leads to, if it leads to one. A key that names a model but
leads nowhere leaves a notice. -/
def examineKey (context : FieldContext) (key : String) : Noted (Option Reached) := do
  if !isModelName (SchemaName.parse context.mapping key).fileName then return none
  match ← liftExcept (resolve context.schemas key) with
  | none =>
    notify (.noSchema key)
    return none
  | some (key, schema) =>
    if ← liftExcept (isModel context.schemas key schema) then
      return some ⟨key, ← liftExcept (modelCode context key schema)⟩
    else return none

def keepModel (models : List Model) (model : Model) : List Model :=
  if models.any (·.fileName == model.fileName) then
    models.map fun kept =>
      if kept.fileName == model.fileName && kept.generics.isEmpty && !model.generics.isEmpty then
        model
      else kept
  else models ++ [model]

/-- The models reachable from references. Those that are to be left out are still passed through. -/
def reachableModels (context : FieldContext) (refs : List String) : Noted (List Model) := do
  let queue := (refs.map schemaKey).eraseDups
  let unseen := (Closure.keysWithin context.schemas).filter (!queue.contains ·)
  let reached ← Closure.visit (examineKey context) (fun found => found.code.refs.map schemaKey)
    unseen queue
  let allowed := reached.filter fun found => isAllowed context.ignores found.key
  return (allowed.map Model.ofReached).foldl keepModel []

end TypedClient

import TypedClient.Value.Moment

/-!
Documents as data: scalars, lists and objects whose entries keep their order. Looking a key up
yields a part that is smaller than the whole.
-/

namespace TypedClient

inductive Foreign
  | moment (value : Moment)
  | time (value : Clock)
  | bytes (shown : String)
  | set (shown : String)
  /-- A part that holds itself, at the place where it comes again. -/
  | circle
  deriving DecidableEq, Repr, Inhabited

def Foreign.shown : Foreign → String
  | moment value => value.shown
  | time value => value.shown
  | bytes shown | set shown => shown
  | circle => "..."

def Foreign.isTrue : Foreign → Bool
  | bytes shown => shown != "b''"
  | set shown => shown != "set()"
  | _ => true

def Foreign.quoted : Foreign → String
  | moment value => value.quoted
  | time value => value.quoted
  | other => other.shown

inductive Scalar
  | null
  | bool (b : Bool)
  | int (n : Int)
  | float (x : Binary64)
  | text (s : String)
  | foreign (value : Foreign)
  deriving DecidableEq, Repr, Inhabited

inductive Value
  | scalar (s : Scalar)
  | list (items : List Value)
  | object (entries : List (Scalar × Value))
  deriving Repr, Inhabited

abbrev Entries := List (Scalar × Value)

namespace Scalar

def toInt? : Scalar → Option Int
  | bool b => some (if b then 1 else 0)
  | int n => some n
  | float x => x.toInt?
  | _ => none

def same (a b : Scalar) : Bool :=
  a == b ||
    match a.toInt?, b.toInt? with
    | some m, some n => m == n
    | _, _ => false

def isTrue : Scalar → Bool
  | null => false
  | bool b => b
  | int n => n != 0
  | float x => !x.isZero
  | text s => s != ""
  | foreign value => value.isTrue

end Scalar

namespace Value

@[match_pattern] abbrev null : Value := .scalar .null
@[match_pattern] abbrev bool (b : Bool) : Value := .scalar (.bool b)
@[match_pattern] abbrev int (n : Int) : Value := .scalar (.int n)
@[match_pattern] abbrev text (s : String) : Value := .scalar (.text s)

/-- Null, false, zero and what is empty do not count as given. -/
def isTrue : Value → Bool
  | scalar s => s.isTrue
  | list items => !items.isEmpty
  | object entries => !entries.isEmpty

def isNull : Value → Bool
  | null => true
  | _ => false

def isText (value : Value) (s : String) : Bool :=
  match value with
  | text t => t == s
  | _ => false

def isObject : Value → Bool
  | object _ => true
  | _ => false

end Value

namespace Entries

def find? : Entries → String → Option Value
  | [], _ => none
  | (key, value) :: rest, name => if key = .text name then some value else find? rest name

def field (entries : Entries) (name : String) : Value := (find? entries name).getD .null

def has (entries : Entries) (name : String) : Bool := (find? entries name).isSome

/-- A present key keeps its place and takes the new value; a new key goes to the end. -/
def insert : Entries → Scalar → Value → Entries
  | [], key, value => [(key, value)]
  | (first, old) :: rest, key, value =>
    if first.same key then (first, value) :: rest else (first, old) :: insert rest key value

def insertAll (entries more : Entries) : Entries :=
  more.foldl (fun all entry => insert all entry.1 entry.2) entries

def without (entries : Entries) (name : String) : Entries :=
  entries.filter fun entry => entry.1 != .text name

theorem mem_of_find? {entries : Entries} {name : String} {value : Value}
    (found : find? entries name = some value) : (.text name, value) ∈ entries := by
  induction entries with
  | nil => simp [find?] at found
  | cons entry rest ih =>
    obtain ⟨key, held⟩ := entry
    simp only [find?] at found
    split at found
    · simp_all
    · exact List.mem_cons_of_mem _ (ih found)

theorem sizeOf_lt_of_mem {entries : Entries} {key : Scalar} {value : Value}
    (member : (key, value) ∈ entries) : sizeOf value < sizeOf entries := by
  have smaller := List.sizeOf_lt_of_mem member
  simp only [Prod.mk.sizeOf_spec] at smaller
  omega

theorem sizeOf_find? {entries : Entries} {name : String} {value : Value}
    (found : find? entries name = some value) : sizeOf value < sizeOf entries :=
  sizeOf_lt_of_mem (mem_of_find? found)

theorem sizeOf_field {entries : Entries} {name : String}
    (given : Entries.field entries name ≠ .null) :
    sizeOf (Entries.field entries name) < sizeOf entries := by
  unfold Entries.field at *
  cases found : find? entries name with
  | none => simp [found] at given
  | some value => simpa using sizeOf_find? found

end Entries

namespace Value

def field : Value → String → Value
  | object entries, name => Entries.field entries name
  | _, _ => .null

def record (fields : List (String × Value)) : Value :=
  .object (fields.map fun field => (.text field.1, field.2))

def texts (items : List String) : Value := .list (items.map .text)

end Value

end TypedClient

import TypedClient.Error
import TypedClient.Json.Token
import TypedClient.Json.Writer

/-!
Values without JSON text: those that hold what JSON has no form for. Writing such a value breaks off
at the first place of that kind.
-/

namespace TypedClient.Json

def scalarFault? : Scalar → Option WriteFault
  | .foreign .circle => some .circular
  | .foreign _ => some .foreign
  | .int n => if Binary64.power 10 digitLimit ≤ n.natAbs then some .longNumber else none
  | _ => none

def isLongNumber : Value → Bool
  | .scalar s => scalarFault? s == some .longNumber
  | _ => false

structure Break where
  text : String
  fault : WriteFault

mutual

/-- Where the indented text of a value that stands at `depth` breaks off. -/
def breakIn : Nat → Value → Option Break
  | _, .scalar s => (scalarFault? s).map fun fault => ⟨"", fault⟩
  | depth, .list items => breakInItems (depth + 1) "" ("[" ++ lineStart (depth + 1)) items
  | depth, .object entries =>
    breakInEntries (depth + 1) ("\x7b" ++ lineStart (depth + 1)) "" entries
termination_by structural _ value => value

def breakInItems : Nat → String → String → List Value → Option Break
  | _, _, _, [] => none
  | depth, before, separator, item :: rest =>
    match breakIn depth item with
    | some ⟨text, fault⟩ =>
      some ⟨if isLongNumber item then before else before ++ separator ++ text, fault⟩
    | none =>
      breakInItems depth (before ++ separator ++ pretty depth item) ("," ++ lineStart depth) rest
termination_by structural _ _ _ items => items

def breakInEntries : Nat → String → String → List (Scalar × Value) → Option Break
  | _, _, _, [] => none
  | depth, before, separator, entry :: rest =>
    match breakInEntry depth before separator entry with
    | some found => some found
    | none =>
      breakInEntries depth (before ++ separator ++ prettyEntry depth entry) ("," ++ lineStart depth)
        rest
termination_by structural _ _ _ entries => entries

def breakInEntry : Nat → String → String → Scalar × Value → Option Break
  | depth, before, separator, (key, value) =>
    match scalarFault? key with
    | some fault => some ⟨before, fault⟩
    | none =>
      (breakIn depth value).map fun found =>
        { found with text := before ++ separator ++ writeKey key ++ ": " ++ found.text }
termination_by structural _ _ _ entry => entry

end

def breakOf (value : Value) : Option Break := breakIn 0 value

def textOf (value : Value) : Except Error String :=
  match breakOf value with
  | some broken => .error (.unwritable broken.fault)
  | none => .ok (write value)

end TypedClient.Json

import TypedClient.Text.CaseTable
import TypedClient.Text.Word

namespace TypedClient.Text

def inRun (c first last step : Nat) : Bool := first ≤ c && c ≤ last && (c - first) % step == 0

def isLower (c : Char) : Bool :=
  if c.toNat < 128 then c.isLower
  else lowercaseRuns.any fun run => inRun c.toNat run.1 run.2.1 run.2.2

/-- The form of a character by a table of runs and one of expansions; itself if it is in none. -/
def caseForm (runs : List (Nat × Nat × Nat × Int)) (expansions : List (Nat × List Nat)) (c : Char) :
    List Char :=
  match expansions.lookup c.toNat with
  | some codes => codes.map Char.ofNat
  | none =>
    match runs.find? fun run => inRun c.toNat run.1 run.2.1 run.2.2.1 with
    | some run => [Char.ofNat (c.toNat + run.2.2.2).toNat]
    | none => [c]

def upperForm (c : Char) : List Char :=
  if c.toNat < 128 then [c.toUpper] else caseForm upperRuns upperExpansions c

def lowerForm (c : Char) : List Char :=
  if c.toNat < 128 then [c.toLower] else caseForm lowerRuns lowerExpansions c

def upper (text : List Char) : List Char := text.flatMap upperForm

def meetsCased (text : List Char) : Bool :=
  match text.dropWhile (inRanges caseIgnorableRanges) with
  | c :: _ => inRanges casedRanges c
  | [] => false

/-- Lower case of a text whose characters in front of it are `before`, the nearest first. -/
def lowerAfter : List Char → List Char → List Char
  | _, [] => []
  | before, c :: rest =>
    (if c == 'Σ' then [if meetsCased before && !meetsCased rest then 'ς' else 'σ']
      else lowerForm c) ++ lowerAfter (c :: before) rest

def lower (text : List Char) : List Char := lowerAfter [] text

end TypedClient.Text

namespace TypedClient

def upperText (text : String) : String := String.ofList (Text.upper text.toList)

def lowerText (text : String) : String := String.ofList (Text.lower text.toList)

end TypedClient

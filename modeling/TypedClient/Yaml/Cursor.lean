import TypedClient.Error
import TypedClient.Text.Quoted

namespace TypedClient.Yaml

def isBreak (c : Char) : Bool := c == '\n' || c == '\x85' || c == '\u2028' || c == '\u2029'

def isSpace (c : Char) : Bool := c == ' ' || c == '\t'

/-- The characters in front of a position, and its line and column; all count from zero. -/
structure Mark where
  index : Nat := 0
  line : Nat := 0
  column : Nat := 0
  deriving DecidableEq, Repr, Inhabited

def Mark.after (mark : Mark) (c : Char) : Mark :=
  if isBreak c then ⟨mark.index + 1, mark.line + 1, 0⟩
  else if c == '\ufeff' then { mark with index := mark.index + 1 }
  else { mark with index := mark.index + 1, column := mark.column + 1 }

inductive Problem
  /-- A character that no text may hold. -/
  | stray (c : Char) (index : Nat)
  | found (text : String) (mark : Mark)
  /-- Found while something was read that began at the start. -/
  | foundWhile (context : String) (start : Option Mark) (text : String) (mark : Mark)
  /-- A scalar that does not stand for a value of its kind. -/
  | noValue
  | fault (fault : ScalarFault)
  deriving DecidableEq, Repr

namespace Mark

def shown (name : String) (mark : Mark) : String :=
  "  in \"" ++ name ++ "\", line " ++ toString (mark.line + 1) ++ ", column " ++
    toString (mark.column + 1)

def samePlace (a b : Mark) : Bool := a.line == b.line && a.column == b.column

end Mark

/-- The report on a problem in the text of that name; the start is told if it is another place. -/
def Problem.report (name : String) : Problem → List String
  | stray c index =>
    ["unacceptable character #x" ++ String.ofList (Text.hexCode 4 c.toNat) ++
      ": special characters are not allowed",
      "  in \"" ++ name ++ "\", position " ++ toString index]
  | found text mark => [text, mark.shown name]
  | foundWhile context start text mark =>
    context :: ((start.filter (!·.samePlace mark)).toList.map (Mark.shown name)) ++
      [text, mark.shown name]
  | noValue | fault _ => []

structure Cursor where
  /-- The characters still to be read. -/
  rest : List Char
  /-- The number of characters in the whole text. -/
  size : Nat
  mark : Mark := {}
  deriving Repr, Inhabited

namespace Cursor

def ofText (text : List Char) : Cursor := { rest := text, size := text.length }

def advance : Nat → Cursor → Cursor
  | count + 1, ⟨c :: rest, size, mark⟩ => advance count ⟨rest, size, mark.after c⟩
  | _, cursor => cursor

end Cursor

abbrev Scan := StateT Cursor (Except Problem)

namespace Scan

def position : Scan Mark := return (← get).mark

def peek : Scan (Option Char) := return (← get).rest.head?

def peekAt (index : Nat) : Scan (Option Char) := return (← get).rest[index]?

def skip (count : Nat) : Scan Unit := modify (·.advance count)

def takeCount (count : Nat) : Scan (List Char) :=
  modifyGet fun cursor => (cursor.rest.take count, cursor.advance count)

def takeWhile (p : Char → Bool) : Scan (List Char) :=
  modifyGet fun cursor =>
    let taken := cursor.rest.takeWhile p
    (taken, cursor.advance taken.length)

def skipWhile (p : Char → Bool) : Scan Unit := discard (takeWhile p)

def steps : Scan Nat := return (← get).size + 1

def fail {α : Type} (context : String) (start : Mark) (text : String) : Scan α := do
  throw (.foundWhile context (some start) text (← position))

def lineBreak : Scan (List Char) := do
  match ← peek with
  | some c =>
    if c == '\n' || c == '\x85' then
      skip 1
      return ['\n']
    else if isBreak c then
      skip 1
      return [c]
    else return []
  | none => return []

def skipComment : Scan Unit := do
  if (← peek) == some '#' then skipWhile (!isBreak ·)

end Scan

def endsLine (next : Option Char) : Bool := next.all isBreak

def endsWord (next : Option Char) : Bool := next.all fun c => c == ' ' || isBreak c

def endsToken (next : Option Char) : Bool := next.all fun c => isSpace c || isBreak c

def shownChar (c : Option Char) : String := String.ofList (Text.quoted [c.getD '\x00'])

def quotedName (name : String) : String := String.ofList (Text.quoted name.toList)

def atSeparator : Scan Bool := do
  let start := (← get).rest.take 3
  return (start == ['-', '-', '-'] || start == ['.', '.', '.']) && endsToken (← Scan.peekAt 3)

end TypedClient.Yaml

import TypedClient.Yaml.Property

/-!
Texts in blocks: the lines that are indented as far as the first one. A literal text keeps its line
breaks, a folded one turns single breaks between lines of words into spaces.
-/

namespace TypedClient.Yaml

inductive Chomping
  | strip
  | clip
  | keep
  deriving DecidableEq, Repr

structure BlockHeader where
  chomping : Chomping
  /-- The columns by which the text is indented more than what surrounds it. -/
  width : Option Nat
  deriving Repr

def chompingMark : Scan (Option Chomping) := do
  match ← Scan.peek with
  | some '+' =>
    Scan.skip 1
    return some .keep
  | some '-' =>
    Scan.skip 1
    return some .strip
  | _ => return none

def widthDigit (start : Mark) : Scan (Option Nat) := do
  match ← Scan.peek with
  | some '0' =>
    Scan.fail "while scanning a block scalar" start
      "expected indentation indicator in the range 1-9, but found 0"
  | some c =>
    if !c.isDigit then return none
    Scan.skip 1
    return some (c.toNat - 48)
  | none => return none

def blockHeader (start : Mark) : Scan BlockHeader := do
  let early ← chompingMark
  let width ← widthDigit start
  let late ← if early.isNone then chompingMark else pure none
  let next ← Scan.peek
  if !endsWord next then
    Scan.fail "while scanning a block scalar" start
      ("expected chomping or indentation indicators, but found " ++ shownChar next)
  return ⟨(early <|> late).getD .clip, width⟩

def leadingLines : Nat → Scan (List Char × Nat)
  | 0 => return ([], 0)
  | fuel + 1 => do
    Scan.skipWhile (· == ' ')
    let column := (← Scan.position).column
    if !(← Scan.peek).any isBreak then return ([], column)
    let first ← Scan.lineBreak
    let (more, widest) ← leadingLines fuel
    return (first ++ more, max column widest)

/-- The breaks of empty lines; spaces up to the indentation do not count. -/
def blockBreaks (indent : Nat) : Nat → Scan (List Char)
  | 0 => return []
  | fuel + 1 => do
    let missing := indent - (← Scan.position).column
    Scan.skip (((← get).rest.take missing).takeWhile (· == ' ')).length
    if !(← Scan.peek).any isBreak then return []
    return (← Scan.lineBreak) ++ (← blockBreaks indent fuel)

structure BlockLines where
  text : List Char
  lastBreak : List Char
  /-- The breaks of empty lines behind the text. -/
  breaks : List Char

/-- The lines from the cursor on; `breaks` stand in front of it, behind `lastBreak`. -/
def blockLines (folded : Bool) (indent : Nat) : Nat → List Char → List Char → Scan BlockLines
  | 0, lastBreak, breaks => return ⟨[], lastBreak, breaks⟩
  | fuel + 1, lastBreak, breaks => do
    let first ← Scan.peek
    if (← Scan.position).column != indent || first.isNone then return ⟨[], lastBreak, breaks⟩
    let line ← Scan.takeWhile (!isBreak ·)
    let lineBreak ← Scan.lineBreak
    let emptyLines ← blockBreaks indent (← Scan.steps)
    let next ← Scan.peek
    let isLast := (← Scan.position).column != indent || next.isNone
    let folds := folded && lineBreak == ['\n'] && !first.any isSpace && !next.any isSpace
    let joint := if isLast then [] else if !folds then lineBreak
      else if emptyLines.isEmpty then [' '] else []
    let more ← blockLines folded indent fuel lineBreak emptyLines
    return { more with text := breaks ++ line ++ joint ++ more.text }

def blockText (folded : Bool) (column : Int) : Scan String := do
  let start ← Scan.position
  Scan.skip 1
  let header ← blockHeader start
  finishLine "while scanning a block scalar" start
  let least := (max (column + 1) 1).toNat
  let (breaks, indent) ← match header.width with
    | none => do
      let (breaks, widest) ← leadingLines (← Scan.steps)
      pure (breaks, max least widest)
    | some width => do
      let indent := least + width - 1
      pure (← blockBreaks indent (← Scan.steps), indent)
  let lines ← blockLines folded indent (← Scan.steps) [] breaks
  let ending := match header.chomping with
    | .strip => []
    | .clip => lines.lastBreak
    | .keep => lines.lastBreak ++ lines.breaks
  return String.ofList (lines.text ++ ending)

end TypedClient.Yaml

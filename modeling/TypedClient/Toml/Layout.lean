import TypedClient.Text.Blank
import TypedClient.Text.Word

/-!
The lines of a text of settings. Comments turn into spaces, an array comes to stand on one line, and
a long text begins behind its quotes; so every statement is a line, long texts apart.
-/

namespace TypedClient.Toml

inductive Fault
  | message (text : String)
  /-- Something is looked for beyond an end. -/
  | beyond
  /-- Something else stands where a table is needed. -/
  | noTable
  /-- A table is to be added to something that is no list. -/
  | noList
  /-- A code is too large for a character. -/
  | outOfRange
  deriving DecidableEq, Repr

structure Failure where
  fault : Fault
  position : Nat
  deriving DecidableEq, Repr

/-- The message with its place: the line and the column, which count from one, and the position. -/
def Failure.placed (text : List Char) (failure : Failure) : Fault :=
  match failure.fault with
  | .message message =>
    let before := text.take failure.position
    let line := (before.filter (· == '\n')).length + 1
    let column := (before.reverse.takeWhile (· != '\n')).length + 1
    .message (message ++ " (line " ++ toString line ++ " column " ++ toString column ++ " char " ++
      toString failure.position ++ ")")
  | other => other

inductive KeyPart
  | outside
  | inside
  | behind
  deriving DecidableEq, Repr

inductive Header
  | table
  | tableOfList
  deriving DecidableEq, Repr

structure Layout where
  text : Array Char
  keyPart : KeyPart := .outside
  /-- Whether the key has a point. -/
  dotted : Bool := false
  /-- The quote that is open. -/
  quote : Option Char := none
  /-- Whether the open quote is a threefold one. -/
  long : Bool := false
  openArrays : Int := 0
  header : Option Header := none
  atLineStart : Bool := true

namespace Layout

/-- The index `count` places in front of another; the last index stands in front of the first. -/
def indexBefore (size index count : Nat) : Option Nat :=
  if count ≤ index then some (index - count)
  else if count - index ≤ size then some (size - (count - index))
  else none

def before (layout : Layout) (index count : Nat) : Option Char :=
  (indexBefore layout.text.size index count).bind (layout.text[·]?)

/-- The number of backslashes that follow each other, backwards from `count` places in front. -/
def backslashes (layout : Layout) (index : Nat) : Nat → Nat → Nat
  | 0, _ => 0
  | fuel + 1, count =>
    if layout.before index count == some '\\' then layout.backslashes index fuel (count + 1) + 1
    else 0

def isQuote (c : Char) : Bool := c == '"' || c == '\''

def leaveKey (layout : Layout) (index : Nat) (c : Char) : Except Failure (Layout × Bool) :=
  if c == '=' then .ok ({ layout with keyPart := .outside, dotted := false }, false)
  else
    .error ⟨.message ("Found invalid character in key name: '" ++ c.toString ++
      "'. Try quoting the key name."), index⟩

def resumeKey (layout : Layout) (index : Nat) : Except Failure (Layout × Bool) :=
  match layout.text[index + 1]? with
  | none => .error ⟨.beyond, index⟩
  | some next =>
    if Text.isBlank next || next == '.' then .ok (layout, true)
    else .ok ({ layout with keyPart := .inside }, true)

def readKey (layout : Layout) (index : Nat) (c : Char) : Except Failure (Layout × Bool) :=
  if c == '\n' then
    .error ⟨.message "Key name found without value. Reached end of line.", index⟩
  else
    match layout.quote with
    | some quote =>
      if c == quote && layout.backslashes index index 1 % 2 == 0 then
        .ok ({ layout with keyPart := .behind, quote := none }, true)
      else .ok (layout, true)
    | none =>
      if layout.keyPart == .inside then
        if Text.isBlank c then .ok ({ layout with keyPart := .behind }, true)
        else if c == '.' then .ok ({ layout with dotted := true }, true)
        else if Text.isWord c || c == '-' then .ok (layout, true)
        else if layout.dotted && layout.before index 1 == some '.' && isQuote c then
          .ok ({ layout with quote := some c }, true)
        else layout.leaveKey index c
      else if Text.isBlank c then
        if layout.dotted then layout.resumeKey index else .ok (layout, true)
      else if c == '.' then { layout with dotted := true }.resumeKey index
      else layout.leaveKey index c

def turnQuote (layout : Layout) (c : Char) (isThird : Bool) : Layout :=
  if isThird then
    { layout with long := !layout.long, quote := if layout.long then none else some c }
  else { layout with quote := if layout.quote.isSome then none else some c }

def readQuote (layout : Layout) (index : Nat) (c : Char) : Layout :=
  let isSecond := layout.before index 1 == some c
  let isThird := isSecond && layout.before index 2 == some c
  if c == '\'' && layout.quote != some '"' then layout.turnQuote c isThird
  else if c == '"' && layout.quote != some '\'' then
    let count := layout.backslashes index layout.text.size (if isThird then 3 else 1)
    if (isThird || !isSecond) && count % 2 == 1 then layout else layout.turnQuote c isThird
  else layout

def blankComment : Nat → Nat → Array Char → Array Char × Bool
  | 0, _, text => (text, false)
  | fuel + 1, index, text =>
    match text[index]? with
    | none => (text, false)
    | some '\n' => (text, true)
    | some _ => blankComment fuel (index + 1) (text.setIfInBounds index ' ')

def readBracket (layout : Layout) (index : Nat) (c : Char) : Layout :=
  if layout.quote.isSome then layout
  else if c == '[' && layout.header.isNone then
    if !layout.atLineStart then { layout with openArrays := layout.openArrays + 1 }
    else if layout.text[index + 1]? == some '[' then { layout with header := some .tableOfList }
    else { layout with header := some .table }
  else if c == ']' then
    match layout.header with
    | some .table => { layout with header := none }
    | some .tableOfList =>
      if layout.before index 1 == some ']' then { layout with header := none } else layout
    | none => { layout with openArrays := layout.openArrays - 1 }
  else layout

def moveQuotes (layout : Layout) (index : Nat) : Layout :=
  match layout.before index 1 with
  | none => layout
  | some c =>
    if isQuote c && layout.before index 2 == some c then
      let text := layout.text.setIfInBounds index c
      match indexBefore text.size index 3 with
      | some first =>
        if text[first]? == some c then { layout with text := text.setIfInBounds first ' ' }
        else { layout with text }
      | none => { layout with text }
    else layout

def readBreak (layout : Layout) (index : Nat) : Except Failure Layout :=
  if layout.long then .ok (layout.moveQuotes index)
  else if layout.quote.isSome then .error ⟨.message "Unbalanced quotes", index⟩
  else if layout.openArrays != 0 then
    .ok { layout with text := layout.text.setIfInBounds index ' ' }
  else .ok { layout with atLineStart := true }

def readStart (layout : Layout) (index : Nat) : Except Failure Layout :=
  let c := layout.text.getD index ' '
  if !layout.atLineStart || c == ' ' || c == '\t' then .ok layout
  else if layout.header.isSome then .ok { layout with atLineStart := false }
  else if c == '=' then .error ⟨.message "Found empty keyname. ", index⟩
  else .ok { layout with atLineStart := false, keyPart := .inside }

def readFrom : Nat → Nat → Layout → Except Failure Layout
  | 0, _, layout => .ok layout
  | fuel + 1, index, layout =>
    match layout.text[index]? with
    | none => .ok layout
    | some c => do
      let (layout, isKey) ←
        if layout.keyPart == .outside then pure (layout, false) else layout.readKey index c
      if isKey then readFrom fuel (index + 1) layout
      else
        let layout := layout.readQuote index c
        let isComment := c == '#' && layout.quote.isNone && layout.header.isNone
        let (text, goesOn) :=
          if isComment then blankComment layout.text.size index layout.text
          else (layout.text, true)
        let layout := { layout with text }.readBracket index c
        if !goesOn then return layout
        let layout ← if c == '\n' then layout.readBreak index else layout.readStart index
        readFrom fuel (index + 1) layout

end Layout

def lines (text : List Char) : Except Failure (List (List Char)) := do
  let layout ← Layout.readFrom text.length 0 { text := text.toArray }
  if layout.keyPart != .outside then
    throw ⟨.message "Key name found without value. Reached end of file.", text.length⟩
  if layout.quote.isSome then
    throw ⟨.message "Unterminated string found. Reached end of file.", text.length⟩
  return Text.splitWhere (· == '\n') layout.text.toList

end TypedClient.Toml

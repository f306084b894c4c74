import TypedClient.Number.Decimal
import TypedClient.Toml.Text
import TypedClient.Value.Basic
import TypedClient.Value.Moment

namespace TypedClient.Toml

inductive Kind
  | bool
  | int
  | float
  | text
  | time
  | date
  | array
  | table
  deriving DecidableEq, Repr

abbrev Typed := Value × Kind

def quotedText (text : List Char) : String := String.ofList (Text.quoted text)

def clock? (text : List Char) : Option Clock := do
  let digits (start : Nat) : Option Nat :=
    let part := (text.drop start).take 2
    if part.length == 2 && part.all Char.isDigit then some (readDigits part) else none
  let hour ← digits 0
  let minute ← digits 3
  let second ← digits 6
  if text[2]? != some ':' || text[5]? != some ':' then none
  let fraction := ((text.drop 9).take 6).takeWhile Char.isDigit
  let hasFraction := text[8]? == some '.' && 3 ≤ fraction.length
  let millionths := if hasFraction then padded 6 (readDigits fraction) else ""
  return { hour, minute, second, fraction := millionths.toList }

def Clock.fault? (clock : Clock) : Option Fault :=
  if 24 ≤ clock.hour then some (.message "hour must be in 0..23")
  else if 60 ≤ clock.minute then some (.message "minute must be in 0..59")
  else if 60 ≤ clock.second then some (.message "second must be in 0..59")
  else none

def numberAt? (text : List Char) (start stop : Nat) : Option Nat :=
  (readInteger? 10 ((text.take stop).drop start)).bind Int.toNat?

abbrev Zone := Char × Nat × Nat

def zone? (text : List Char) : Option Zone :=
  if text == ['Z'] then some ('+', 0, 0)
  else do
    let sign := if text.head? == some '-' then '-' else '+'
    return (sign, ← numberAt? text 1 3, ← numberAt? text 4 6)

def fractionAndZone (text : List Char) : Option (List Char) × Option (Option Zone) :=
  let isSign (c : Char) : Bool := c == '+' || c == '-'
  if text.getLast?.any fun c => c == 'Z' || c == 'z' then
    (some text.dropLast, some (zone? ['Z']))
  else
    let sign := if text.contains '+' then '+' else '-'
    let digits := text.takeWhile (· != sign)
    let behind := text.drop digits.length
    (some digits, if behind.any isSign then some (zone? behind) else none)

/-- What follows the seconds of a moment: a part of a second, and the zone; none of them counts if
one of them cannot be read. -/
def clockEnd (text : List Char) : List Char × Option Zone :=
  match text with
  | '.' :: rest =>
    let (digits, zone) := fractionAndZone rest
    match zone with
    | some none => ([], none)
    | zone =>
      match digits.filter fun digits => !digits.isEmpty && digits.all Char.isDigit with
      | some digits => (digits.take 6, zone.join)
      | none => ([], none)
  | [] => ([], none)
  | rest => ([], zone? rest)

def moment? (text : List Char) : Option Moment := do
  if !(text.drop 1).contains '-' then none
  let year ← numberAt? text 0 4
  let month ← numberAt? text 5 7
  let day ← numberAt? text 8 10
  let date : Moment := { year, month, day }
  if !date.isDay then none
  if text.length == 10 then return date
  let hour ← numberAt? text 11 13
  let minute ← numberAt? text 14 16
  let second ← numberAt? text 17 19
  let (fraction, zone) := clockEnd (text.drop 19)
  let clock : Clock := { hour, minute, second, fraction, zone }
  if clock.isTime then return { date with clock := some clock } else none

def isStrict (text : List Char) : Bool :=
  match Text.trim text with
  | [] => false
  | [c] => c != '_'
  | first :: second :: rest =>
    let number := first :: second :: rest
    let signed := first == '+' || first == '-'
    first != '_' && number.getLast? != some '_' && !Text.contains ['_', '.'] number &&
      !Text.contains ['.', '_'] number &&
      !(first == '0' && !(second == '.' || second == 'o' || second == 'b' || second == 'x')) &&
      !(signed && second == '0' && !rest.isEmpty && rest.head? != some '.') &&
      !Text.contains ['_', '_'] (if signed then second :: rest else number)

def readFloat (body : List Char) : Except Fault Binary64 :=
  if body.contains '.' && (Text.cut '.' body).2.isEmpty then
    .error (.message "This float is missing digits after the point")
  else if !body.head?.any Char.isDigit then
    .error (.message "This float doesn't have a leading digit")
  else
    match readDecimal? body with
    | some value => .ok value
    | none => .error (.message ("could not convert string to float: " ++ quotedText body))

def isWordOf (words : List String) (text : List Char) : Bool :=
  words.contains (String.ofList (text.map Char.toLower))

/-- A number behind its sign; it is taken from zero if the sign says so. -/
def readNumber (text : List Char) : Except Fault Typed := do
  let (negative, rest) := splitSign text
  let body := rest.filter (· != '_')
  let pointed := body.contains '.' ||
    (!body.contains 'x' && (body.contains 'e' || body.contains 'E'))
  if pointed || isWordOf ["inf", "nan"] body then
    let size ← if pointed then readFloat body else pure ((readDecimal? body).getD .nan)
    let value := if negative then (Binary64.ofNat 0).add size.negate else size
    return (.scalar (.float value), .float)
  match readInteger? 0 body with
  | some size => return (.int (if negative then -size else size), .int)
  | none => throw (.message ("invalid literal for int() with base 0: " ++ quotedText body))

def isBounded (text : List Char) : Bool :=
  match text with
  | [] => true
  | first :: rest =>
    text.getLast? == some first && trailingBackslashes rest.dropLast % 2 == 0

def endsItem (item : List Char) : Bool :=
  let text := Text.trim item
  let opensLong := 2 < text.length && text[1]? == text[0]? && text[2]? == text[0]?
  let backwards := text.reverse
  isBounded text &&
    !(opensLong && backwards[1]? != text[0]? && backwards[2]? != text[0]?)

/-- Joins pieces of texts that hold commas; the last item may be open unless it has been joined. -/
def joinItems (joined : Bool) (item : List Char) : List (List Char) →
    Except Fault (List (List Char))
  | [] => if joined && !endsItem item then .error .beyond else .ok [item]
  | next :: rest =>
    if endsItem item then do return item :: (← joinItems false next rest)
    else joinItems true (item ++ ',' :: next) rest

/-- The tables of an array, between `start` and the place where a brace may close. -/
def tableItems (text : Array Char) : Nat → Nat → Nat → Nat → Bool → List (List Char)
  | 0, _, _, _, _ => []
  | fuel + 1, start, place, depth, inText =>
    if text.size ≤ place + 1 then []
    else
      let c := text.getD place ' '
      let isQuote := c == '"' || c == '\''
      let escaped := trailingBackslashes (text.toList.take place) % 2 == 1
      let inText := if isQuote then !inText || escaped else inText
      let depth := if !inText && c == '\x7b' then depth + 1 else depth
      if inText || c != '\x7d' then tableItems text fuel start (place + 1) depth inText
      else if 1 < depth then tableItems text fuel start (place + 1) (depth - 1) inText
      else
        let item := (text.toList.take (place + 1)).drop start
        let gap := ((text.toList.drop (place + 2)).takeWhile (· != '\x7b')).length
        let next := min (place + 2 + gap) (max (place + 2) (text.size - 1))
        item :: tableItems text fuel next (next + 1) depth inText

def splitNested : Int → List Char → List (List Char)
  | _, [] => [[]]
  | depth, c :: rest =>
    if c == ',' && depth == 0 then [] :: splitNested depth rest
    else
      let depth := if c == '[' then depth + 1 else if c == ']' then depth - 1 else depth
      match splitNested depth rest with
      | [] => [[c]]
      | head :: tail => (c :: head) :: tail

def arrayItems (array : List Char) : Except Fault (List (List Char)) :=
  let body := inner array
  let (before, _) := Text.cut '[' body
  if body.contains '[' && (Text.trim before).isEmpty then .ok (splitNested 0 body)
  else
    match Text.trim body with
    | '\x7b' :: _ =>
      let depth := if array[1]? == some '\x7b' then 1 else 0
      .ok (tableItems array.toArray array.length 1 2 depth false)
    | c :: _ =>
      let items := Text.splitWhere (· == ',') body
      if Layout.isQuote c then joinItems false (items.headD []) (items.drop 1) else .ok items
    | [] => .ok (Text.splitWhere (· == ',') body)

def isWhole (pair : List Char) : Except Fault Bool :=
  if !pair.contains '=' then .error (.message "Invalid inline table encountered")
  else
    let value := Text.trim (Text.cut '=' pair).2
    let last := value.getLast?
    match value with
    | [] => .error .beyond
    | first :: _ =>
      .ok ((Layout.isQuote first && last == some first) || first == '-' || first.isDigit ||
        value == "true".toList || value == "false".toList ||
        (first == '[' && last == some ']') || (first == '\x7b' && last == some '\x7d'))

def joinPairs (pair : List Char) : List (List Char) → Except Fault (List (List Char))
  | [] => do
    if ← isWhole pair then return [pair]
    else throw (.message "Invalid inline table value encountered")
  | next :: rest => do
    if ← isWhole pair then return pair :: (← joinPairs next rest)
    else joinPairs (pair ++ ',' :: next) rest

def tablePairs (table : List Char) : Except Fault (List (List Char)) :=
  match Text.splitWhere (· == ',') (inner table) with
  | [] => .ok []
  | first :: rest =>
    if rest.isEmpty && (Text.trim first).isEmpty then .ok [] else joinPairs first rest

def opensValue (text : List Char) : Bool :=
  match text with
  | [] => true
  | c :: _ =>
    c == ' ' || c == '\t' || Layout.isQuote c || c == '[' || c == '\x7b' ||
      Text.trim text == "true".toList || Text.trim text == "false".toList ||
      (readDecimal? text).isSome || (moment? text).isSome || (clock? text).isSome

structure PairText where
  key : List Char
  value : List Char
  strict : Bool

/-- Cuts a line at the sign number `count`, or at a later one where a value may follow. -/
def cutPair (line : List Char) (count : Nat) (strict : Bool) (last : List Char) :
    Nat → Except Fault PairText
  | 0 => .error .beyond
  | fuel + 1 =>
    if opensValue last then
      let parts := (pieces ['='] count line).dropLast
      .ok ⟨Text.trim (['='].intercalate parts), Text.trim last, strict⟩
    else
      let next := ((pieces ['='] (count + 1) line).getLast?).getD []
      if next == last then .error (.message "Invalid date or number")
      else cutPair line (count + 1) (strict && isStrict next) next fuel

def splitPair (line : List Char) : Except Fault PairText :=
  let count := firstOutside ['='] false (quotePieces line)
  let last := ((pieces ['='] count line).getLast?).getD []
  let value := if last.head?.any Char.isDigit then last.filter (· != '_') else last
  cutPair line count (isStrict last) value (line.length + 1)

def keyNames (key : List Char) : Except Fault (List String × String) :=
  if key.contains '.' then
    let levels := if key.contains '"' || key.contains '\'' then
        (quotePieces key).zipIdx.flatMap fun (piece, index) =>
          if index % 2 == 1 then [piece] else (Text.splitWhere (· == '.') piece).map Text.trim
      else Text.splitWhere (· == '.') key
    match (Text.dropTrailing List.isEmpty levels).reverse with
    | [] => .error .beyond
    | last :: way =>
      .ok (((way.filter (!·.isEmpty)).map String.ofList).reverse, String.ofList (Text.trim last))
  else
    match key with
    | [] => .error .beyond
    | first :: _ =>
      if Layout.isQuote first && key.getLast? == some first then do
        return ([], String.ofList (← unescape (inner key)))
      else .ok ([], String.ofList key)

/-- A long text that is still open, for a key; `joined` says that the next line follows at once. -/
structure OpenText where
  key : String
  text : List Char
  joined : Bool
  deriving Repr

def openText (key : String) (text : List Char) : OpenText :=
  if trailingBackslashes text % 2 == 1 then ⟨key, text.dropLast, true⟩
  else ⟨key, text ++ ['\n'], false⟩

def lastItem : Nat → List (List Char) → Except Fault (List Char)
  | 0, _ => .error .beyond
  | fuel + 1, items =>
    match items with
    | [] => .error .beyond
    | [only] => .ok only
    | last :: before :: rest =>
      match last with
      | [] => .error .beyond
      | c :: _ =>
        if Layout.isQuote c then .ok last else lastItem fuel ((before ++ ',' :: last) :: rest)

def isOpenLong : List Char → Except Fault Bool
  | [] => .error .beyond
  | first :: rest =>
    if !Layout.isQuote first then .ok false
    else
      match rest with
      | [] => .error .beyond
      | second :: rest =>
        if second != first then .ok false
        else
          match rest with
          | [] => .error .beyond
          | third :: rest =>
            let isClosed := 2 < rest.length && rest.reverse.take 3 == [first, first, first]
            .ok (third == first && !isClosed)

def opensLong (value : List Char) : Except Fault Bool := do
  if value.length < 3 then return false
  let isTextArray := value.head? == some '[' && value.getLast? != some ']' &&
    ((Text.trim (inner value)).head?.any Layout.isQuote)
  if !isTextArray then isOpenLong value
  else
    let items := Text.splitWhere (· == ',') (Text.trim (value.drop 1))
    isOpenLong (← lastItem items.length items.reverse)

def atTables {α : Type} (change : Value → Except Fault (Value × α)) :
    List String → Value → Except Fault (Value × α)
  | [], value => change value
  | name :: way, .object entries => do
    let table := (Entries.find? entries name).getD (.object [])
    let (table, result) ← atTables change way table
    return (.object (Entries.insert entries (.text name) table), result)
  | _ :: _, _ => .error .noTable

def duplicateKeys : Fault := .message "Duplicate keys!"

def addNew (key : String) (value : Value) : Value → Except Fault Value
  | .object entries =>
    if Entries.has entries key then .error duplicateKeys
    else .ok (.object (Entries.insert entries (.text key) value))
  | _ => .error duplicateKeys

mutual

def readValue (strict : Bool) (text : List Char) : Nat → Except Fault Typed
  | 0 => .error .beyond
  | fuel + 1 =>
    match text with
    | [] => .error (.message "Empty value is invalid")
    | first :: _ =>
      if text == "true".toList then .ok (.bool true, .bool)
      else if text == "false".toList then .ok (.bool false, .bool)
      else if isWordOf ["true", "false"] text then
        .error (.message "Only all lowercase booleans allowed")
      else if Layout.isQuote first then do return (.text (← readText text), .text)
      else if first == '[' then do
        let items ← arrayItems (Text.trim text)
        return (.list (← readItems none items fuel), .array)
      else if first == '\x7b' then do
        return (← readTable (.object []) text fuel, .table)
      else
        match clock? text, moment? text with
        | some clock, _ =>
          match Clock.fault? clock with
          | some fault => .error fault
          | none => .ok (.scalar (.foreign (.time clock)), .time)
        | none, some moment => .ok (.scalar (.foreign (.moment moment)), .date)
        | none, none =>
          if strict then readNumber text
          else
            .error (.message "Weirdness with leading zeroes or underscores in your number.")
termination_by structural fuel => fuel

/-- The values of items, all of the same kind; items without text do not count. -/
def readItems (kind : Option Kind) (items : List (List Char)) : Nat → Except Fault (List Value)
  | 0 => .error .beyond
  | fuel + 1 =>
    match items with
    | [] => .ok []
    | item :: rest => do
      let item := Text.trim item
      if item.isEmpty then readItems kind rest fuel
      else
        let (value, found) ← readValue true item fuel
        if kind.any (· != found) then throw (.message "Not a homogeneous array")
        return value :: (← readItems (some found) rest fuel)
termination_by structural fuel => fuel

def readTable (table : Value) (text : List Char) : Nat → Except Fault Value
  | 0 => .error .beyond
  | fuel + 1 => do readPairs table (← tablePairs text) fuel
termination_by structural fuel => fuel

def readPairs (table : Value) (pairs : List (List Char)) : Nat → Except Fault Value
  | 0 => .error .beyond
  | fuel + 1 =>
    match pairs with
    | [] => .ok table
    | pair :: rest => do
      let (table, opened) ← readPair table pair fuel
      if opened.isSome then return table else readPairs table rest fuel
termination_by structural fuel => fuel

def readPair (table : Value) (line : List Char) : Nat → Except Fault (Value × Option OpenText)
  | 0 => .error .beyond
  | fuel + 1 => do
    let pair ← splitPair line
    let (way, key) ← keyNames pair.key
    let add (inner : Value) : Except Fault (Value × Option OpenText) := do
      if ← opensLong pair.value then
        discard (addNew key .null inner)
        return (inner, some (openText key pair.value))
      else
        let (value, _) ← readValue pair.strict pair.value fuel
        return (← addNew key value inner, none)
    atTables add way table
termination_by structural fuel => fuel

end

/-- Every step goes on with a shorter text or with one item less. -/
def fuelFor (text : List Char) : Nat := 4 * text.length + 8

end TypedClient.Toml

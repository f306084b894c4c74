import TypedClient.Json.Token
import TypedClient.Text.Blank
import TypedClient.Text.Case
import TypedClient.Yaml.Moment

/-!
What scalars stand for. A text without quotes tells its kind by its form; a text of a kind is then
read as a value, and may fail to be one.
-/

namespace TypedClient.Yaml

inductive Tag
  | null
  | bool
  | int
  | float
  | text
  | moment
  | bytes
  /-- A key whose mapping stands in for entries of its own. -/
  | merge
  /-- A key whose value is that of the whole mapping. -/
  | default
  | sequence
  | mapping
  | set
  | pairs
  | unknown (name : String)
  deriving DecidableEq, Repr, Inhabited

namespace Tag

def knownStart : String := "tag:yaml.org,2002:"

def known : List (String × Tag) :=
  [("null", null), ("bool", bool), ("int", int), ("float", float), ("str", text),
    ("timestamp", moment), ("binary", bytes), ("merge", merge), ("value", default),
    ("seq", sequence), ("map", mapping), ("set", set), ("omap", pairs), ("pairs", pairs)]

def ofName (name : String) : Tag :=
  if knownStart.toList.isPrefixOf name.toList then
    (known.lookup (String.ofList (name.toList.drop knownStart.length))).getD (unknown name)
  else unknown name

end Tag

/-! The kinds of texts without quotes -/

def nullWords : List String := ["~", "null", "Null", "NULL"]

def boolWords : List String :=
  ["yes", "Yes", "YES", "no", "No", "NO", "true", "True", "TRUE", "false", "False", "FALSE", "on",
    "On", "ON", "off", "Off", "OFF"]

def dropSign (text : List Char) : List Char := (splitSign text).2

def isDigitPart (c : Char) : Bool := c.isDigit || c == '_'

def isDigits : List Char → Bool
  | c :: rest => c.isDigit && rest.all isDigitPart
  | [] => false

def isSixtieth : List Char → Bool
  | [c] => c.isDigit
  | [c, d] => '0' ≤ c && c ≤ '5' && d.isDigit
  | _ => false

def isNatural (text : List Char) : Bool :=
  match text with
  | ['0'] => true
  | '0' :: 'b' :: rest => !rest.isEmpty && rest.all fun c => c == '0' || c == '1' || c == '_'
  | '0' :: 'x' :: rest => !rest.isEmpty && rest.all fun c => (Json.hexValue? c).isSome || c == '_'
  | '0' :: rest => rest.all fun c => ('0' ≤ c && c ≤ '7') || c == '_'
  | text =>
    match Text.splitWhere (· == ':') text with
    | first :: rest => isDigits first && rest.all isSixtieth
    | [] => false

def isExponent : List Char → Bool
  | [] => true
  | mark :: sign :: digits =>
    (mark == 'e' || mark == 'E') && (sign == '-' || sign == '+') && !digits.isEmpty &&
      digits.all Char.isDigit
  | _ => false

def isPointed (text : List Char) : Bool :=
  let whole := text.takeWhile (· != '.')
  match text.drop whole.length, Text.splitWhere (· == ':') whole with
  | '.' :: rest, [digits] => isDigits digits && isExponent (rest.dropWhile isDigitPart)
  | '.' :: rest, first :: sixtieths =>
    isDigits first && sixtieths.all isSixtieth && rest.all isDigitPart
  | _, _ => false

def isFloat (text : List Char) : Bool :=
  match text with
  | '.' :: rest =>
    [".inf", ".Inf", ".INF", ".nan", ".NaN", ".NAN"].contains (String.ofList text) ||
      (isDigits (rest.takeWhile isDigitPart) && isExponent (rest.dropWhile isDigitPart))
  | _ =>
    [".inf", ".Inf", ".INF"].contains (String.ofList (dropSign text)) || isPointed (dropSign text)

def isMoment (text : List Char) : Bool :=
  (Moment.read? text).any fun moment => moment.clock.isSome || text.length == 10

/-- The kind of a text, as its form tells it; one break at the end does not count. -/
def Tag.ofText (text : String) : Tag :=
  if text == "" then null
  else
    let form := if text.toList.getLast? == some '\n' then text.toList.dropLast else text.toList
    let word := String.ofList form
    if nullWords.contains word then null
    else if boolWords.contains word then bool
    else if isFloat form then float
    else if isNatural (dropSign form) then int
    else if word == "<<" then merge
    else if isMoment form then moment
    else if word == "=" then default
    else if word == "!" || word == "&" || word == "*" then unknown word
    else .text

/-! Reading values -/

def truthOf? (text : String) : Option Bool :=
  let word := lowerText text
  if ["yes", "true", "on"].contains word then some true
  else if ["no", "false", "off"].contains word then some false
  else none

def signed (text : List Char) : Except Problem (Bool × List Char) :=
  if text.isEmpty then .error (.fault .emptyNumber) else .ok (splitSign text)

def readSigned (base : Nat) (text : List Char) : Except Problem Int :=
  match readInteger? base text with
  | some value => .ok value
  | none => .error .noValue

def readNatural (text : List Char) : Except Problem Int :=
  match text with
  | [] => throw (.fault .emptyNumber)
  | ['0'] => return 0
  | '0' :: 'b' :: rest => readSigned 2 rest
  | '0' :: 'x' :: rest => readSigned 16 rest
  | '0' :: _ => readSigned 8 text
  | text => do
    let parts ← (Text.splitWhere (· == ':') text).mapM (readSigned 10)
    return parts.foldl (fun value part => value * 60 + part) 0

def readInt (text : List Char) : Except Problem Int := do
  let (negative, rest) ← signed (text.filter (· != '_'))
  let value ← readNatural rest
  return if negative then -value else value

def readPart (text : List Char) : Except Problem Binary64 :=
  match readDecimal? text with
  | some value => .ok value
  | none => .error .noValue

def addSixties : Binary64 → Nat → List Binary64 → Except Problem Binary64
  | sum, _, [] => .ok sum
  | sum, unit, part :: rest =>
    match Binary64.ofNat unit with
    | .finite negative mantissa exponent =>
      addSixties (sum.add (part.mul (.finite negative mantissa exponent))) (unit * 60) rest
    | _ => .error (.fault .outOfRange)

def readFloat (text : List Char) : Except Problem Binary64 := do
  let (negative, rest) ← signed (Text.lower (text.filter (· != '_')))
  if String.ofList rest == ".inf" then return .infinite negative
  if String.ofList rest == ".nan" then return .nan
  let size ← match Text.splitWhere (· == ':') rest with
    | [single] => readPart single
    | parts => do addSixties (.ofNat 0) 1 (← parts.mapM readPart).reverse
  return if negative then size.negate else size

def readMoment (text : List Char) : Except Problem Moment :=
  match Moment.read? (if text.getLast? == some '\n' then text.dropLast else text) with
  | none => .error (.fault .noMoment)
  | some moment => if moment.isReal then .ok moment else .error .noValue

/-- Whether characters spell bytes, four characters for three of them; others do not count. -/
def spellsBytes : Nat → Nat → List Char → Bool
  | filled, _, [] => filled == 0
  | filled, padding, c :: rest =>
    if c == '=' then
      if filled < 2 then spellsBytes filled padding rest
      else 4 ≤ filled + padding + 1 || spellsBytes filled (padding + 1) rest
    else if c.isAlphanum || c == '+' || c == '/' then spellsBytes ((filled + 1) % 4) 0 rest
    else spellsBytes filled padding rest

end TypedClient.Yaml

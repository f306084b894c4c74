import TypedClient.Number.Decimal
import TypedClient.Value.Basic

namespace TypedClient.Json

inductive Token
  | openList
  | closeList
  | openObject
  | closeObject
  | comma
  | colon
  | atom (value : Scalar)
  deriving DecidableEq, Repr, Inhabited

def hexValue? (c : Char) : Option Nat :=
  if c.isDigit then some (c.toNat - 48)
  else if 'a' ≤ c ∧ c ≤ 'f' then some (c.toNat - 87)
  else if 'A' ≤ c ∧ c ≤ 'F' then some (c.toNat - 55)
  else none

/-- Joins surrogate pairs; one that stands alone becomes the replacement character. -/
def charsOfUnits : List Nat → List Char
  | [] => []
  | [unit] => [if 0xD800 ≤ unit ∧ unit < 0xE000 then '\ufffd' else Char.ofNat unit]
  | high :: low :: rest =>
    if 0xD800 ≤ high ∧ high < 0xDC00 ∧ 0xDC00 ≤ low ∧ low < 0xE000 then
      Char.ofNat (0x10000 + (high - 0xD800) * 0x400 + (low - 0xDC00)) :: charsOfUnits rest
    else
      (if 0xD800 ≤ high ∧ high < 0xE000 then '\ufffd' else Char.ofNat high) ::
        charsOfUnits (low :: rest)

def simpleEscape? : Char → Option Char
  | '"' => some '"'
  | '\\' => some '\\'
  | '/' => some '/'
  | 'b' => some '\x08'
  | 'f' => some '\x0c'
  | 'n' => some '\n'
  | 'r' => some '\r'
  | 't' => some '\t'
  | _ => none

def readNumber? (text : List Char) : Option Scalar :=
  let (negative, rest) : Bool × List Char :=
    match text with
    | '-' :: rest => (true, rest)
    | rest => (false, rest)
  let whole := rest.takeWhile Char.isDigit
  let rest := rest.dropWhile Char.isDigit
  let (fraction, rest, pointed) : List Char × List Char × Bool :=
    match rest with
    | '.' :: rest => (rest.takeWhile Char.isDigit, rest.dropWhile Char.isDigit, true)
    | rest => ([], rest, false)
  if whole.isEmpty || (whole.head? == some '0' && whole.length != 1) then none
  else if pointed && fraction.isEmpty then none
  else if !pointed && rest.isEmpty then
    let value : Int := readDigits whole
    if digitLimit < whole.length then none
    else some (.int (if negative then -value else value))
  else
    (readExponent? rest).map fun exponent =>
      .float (.ofDecimal negative (readDigits (whole ++ fraction)) (exponent - fraction.length))

def readAtom? (text : List Char) : Option Scalar :=
  match String.ofList text with
  | "null" => some .null
  | "true" => some (.bool true)
  | "false" => some (.bool false)
  | "NaN" => some (.float .nan)
  | "Infinity" => some (.float (.infinite false))
  | "-Infinity" => some (.float (.infinite true))
  | _ => readNumber? text

inductive Mode
  | between
  | word (read : List Char)
  | quotes (units : List Nat)
  | escape (units : List Nat)
  | code (units : List Nat) (left value : Nat)

def isAtomChar (c : Char) : Bool := c.isAlphanum || c == '-' || c == '+' || c == '.'

def structural? : Char → Option Token
  | '[' => some .openList
  | ']' => some .closeList
  | '\x7b' => some .openObject
  | '\x7d' => some .closeObject
  | ',' => some .comma
  | ':' => some .colon
  | _ => none

def isSpace (c : Char) : Bool := c == ' ' || c == '\t' || c == '\n' || c == '\r'

def enter (c : Char) : Option (List Token × Mode) :=
  match structural? c with
  | some token => some ([token], .between)
  | none =>
    if isSpace c then some ([], .between)
    else if c == '"' then some ([], .quotes [])
    else if isAtomChar c then some ([], .word [c])
    else none

def step : Mode → Char → Option (List Token × Mode)
  | .between, c => enter c
  | .word read, c =>
    if isAtomChar c then some ([], .word (c :: read))
    else do
      let value ← readAtom? read.reverse
      let (tokens, mode) ← enter c
      return (.atom value :: tokens, mode)
  | .quotes units, c =>
    if c == '"' then
      some ([.atom (.text (String.ofList (charsOfUnits units.reverse)))], .between)
    else if c == '\\' then some ([], .escape units)
    else if c.toNat < 32 then none
    else some ([], .quotes (c.toNat :: units))
  | .escape units, c =>
    if c == 'u' then some ([], .code units 4 0)
    else (simpleEscape? c).map fun meant => ([], .quotes (meant.toNat :: units))
  | .code units left value, c => do
    let digit ← hexValue? c
    let value := value * 16 + digit
    return ([], if left ≤ 1 then .quotes (value :: units) else .code units (left - 1) value)

def finish : Mode → Option (List Token)
  | .between => some []
  | .word read => (readAtom? read.reverse).map fun value => [.atom value]
  | _ => none

def tokensFrom : Mode → List Char → Option (List Token)
  | mode, [] => finish mode
  | mode, c :: rest => do
    let (tokens, mode) ← step mode c
    let more ← tokensFrom mode rest
    return tokens ++ more

def tokens (text : List Char) : Option (List Token) := tokensFrom .between text

end TypedClient.Json

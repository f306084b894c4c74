import TypedClient.Json.Token
import TypedClient.Yaml.Cursor

/-!
Texts in quotes: in single quotes a quote is written twice, in double quotes a backslash begins an
escape. A break between words counts as a space, breaks in excess of one count as themselves.
-/

namespace TypedClient.Yaml

def escape? : Char → Option Char
  | '0' => some '\x00'
  | 'a' => some '\x07'
  | 'b' => some '\x08'
  | 't' => some '\t'
  | '\t' => some '\t'
  | 'n' => some '\n'
  | 'v' => some '\x0b'
  | 'f' => some '\x0c'
  | 'r' => some '\r'
  | 'e' => some '\x1b'
  | ' ' => some ' '
  | '"' => some '"'
  | '\\' => some '\\'
  | '/' => some '/'
  | 'N' => some '\x85'
  | '_' => some '\xa0'
  | 'L' => some '\u2028'
  | 'P' => some '\u2029'
  | _ => none

def codeWidth? : Char → Option Nat
  | 'x' => some 2
  | 'u' => some 4
  | 'U' => some 8
  | _ => none

def charOfCode (code : Nat) : Except Problem Char :=
  if 0x7FFFFFFF < code then .error (.fault .outOfRange)
  else if 0x10FFFF < code then .error .noValue
  else if 0xD800 ≤ code && code < 0xE000 then .ok '\ufffd'
  else .ok (Char.ofNat code)

def isHexDigit (c : Char) : Bool := (Json.hexValue? c).isSome

def readHex (digits : List Char) : Nat :=
  digits.foldl (fun value c => value * 16 + (Json.hexValue? c).getD 0) 0

structure Quotes where
  double : Bool
  start : Mark

namespace Quotes

def mark (quotes : Quotes) : Char := if quotes.double then '"' else '\''

def breaks (quotes : Quotes) : Nat → Scan (List Char)
  | 0 => return []
  | fuel + 1 => do
    if ← atSeparator then
      Scan.fail "while scanning a quoted scalar" quotes.start "found unexpected document separator"
    Scan.skipWhile isSpace
    if (← Scan.peek).any isBreak then return (← Scan.lineBreak) ++ (← quotes.breaks fuel)
    else return []

def blanks (quotes : Quotes) : Scan (List Char) := do
  let spaces ← Scan.takeWhile isSpace
  match ← Scan.peek with
  | none =>
    Scan.fail "while scanning a quoted scalar" quotes.start "found unexpected end of stream"
  | some c =>
    if !isBreak c then return spaces
    let first ← Scan.lineBreak
    let more ← quotes.breaks (← Scan.steps)
    if first != ['\n'] then return first ++ more
    else return if more.isEmpty then [' '] else more

def escaped (quotes : Quotes) : Scan (List Char) := do
  let context := "while scanning a double-quoted scalar"
  let next ← Scan.peek
  match next.bind escape?, next.bind codeWidth? with
  | some c, _ =>
    Scan.skip 1
    return [c]
  | none, some width =>
    Scan.skip 1
    let digits := (← get).rest.take width
    let good := digits.takeWhile isHexDigit
    if good.length < width then
      Scan.fail context quotes.start ("expected escape sequence of " ++ toString width ++
        " hexadecimal numbers, but found " ++ shownChar digits[good.length]?)
    let c ← liftM (charOfCode (readHex good))
    Scan.skip width
    return [c]
  | none, none =>
    if next.any isBreak then
      discard Scan.lineBreak
      quotes.breaks (← Scan.steps)
    else Scan.fail context quotes.start ("found unknown escape character " ++ shownChar next)

/-- A run without blanks, up to the closing quote if no blank comes first. -/
def word (quotes : Quotes) : Nat → Scan (List Char)
  | 0 => return []
  | fuel + 1 => do
    let part ← Scan.takeWhile fun c =>
      c != '\'' && c != '"' && c != '\\' && !isSpace c && !isBreak c
    match ← Scan.peek, ← Scan.peekAt 1 with
    | some '\'', next =>
      if quotes.double then
        Scan.skip 1
        return part ++ '\'' :: (← quotes.word fuel)
      else if next == some '\'' then
        Scan.skip 2
        return part ++ '\'' :: (← quotes.word fuel)
      else return part
    | some '"', _ =>
      if quotes.double then return part
      Scan.skip 1
      return part ++ '"' :: (← quotes.word fuel)
    | some '\\', _ =>
      Scan.skip 1
      if quotes.double then
        let meant ← quotes.escaped
        return part ++ meant ++ (← quotes.word fuel)
      else return part ++ '\\' :: (← quotes.word fuel)
    | _, _ => return part

def words (quotes : Quotes) : Nat → Scan (List Char)
  | 0 => return []
  | fuel + 1 => do
    let part ← quotes.word (← Scan.steps)
    if (← Scan.peek) == some quotes.mark then return part
    let between ← quotes.blanks
    return part ++ between ++ (← quotes.words fuel)

end Quotes

def quotedText (double : Bool) : Scan String := do
  let quotes : Quotes := ⟨double, ← Scan.position⟩
  Scan.skip 1
  let text ← quotes.words (← Scan.steps)
  Scan.skip 1
  return String.ofList text

end TypedClient.Yaml

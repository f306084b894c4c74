import TypedClient.Yaml.Quoted

namespace TypedClient.Yaml

def isWordChar (c : Char) : Bool := c.isAlphanum || c == '-' || c == '_'

def endsName (next : Option Char) : Bool :=
  endsToken next || next.any "?:,]\x7d%@\x60".toList.contains

def nameText (kind : String) : Scan String := do
  let start ← Scan.position
  Scan.skip 1
  let name ← Scan.takeWhile isWordChar
  let next ← Scan.peek
  if name.isEmpty || !endsName next then
    Scan.fail ("while scanning an " ++ kind) start
      ("expected alphabetic or numeric character, but found " ++ shownChar next)
  return String.ofList name

structure TagText where
  handle : Option String
  suffix : String
  deriving DecidableEq, Repr

def isUriChar (c : Char) : Bool :=
  c.isAlphanum || "-;/?:@&=+$,_.!~*'()[]%".toList.contains c

def uriBytes (kind : String) (start : Mark) : Nat → Scan (List UInt8)
  | 0 => return []
  | fuel + 1 => do
    if (← Scan.peek) != some '%' then return []
    Scan.skip 1
    let digits := (← get).rest.take 2
    let good := digits.takeWhile isHexDigit
    if good.length < 2 then
      Scan.fail ("while scanning a " ++ kind) start
        ("expected URI escape sequence of 2 hexadecimal numbers, but found " ++
          shownChar digits[good.length]?)
    Scan.skip 2
    return UInt8.ofNat (readHex good) :: (← uriBytes kind start fuel)

def uriParts (kind : String) (start : Mark) : Nat → Scan (List Char)
  | 0 => return []
  | fuel + 1 => do
    let part ← Scan.takeWhile fun c => isUriChar c && c != '%'
    if (← Scan.peek) != some '%' then return part
    let place ← Scan.position
    let bytes ← uriBytes kind start (← Scan.steps)
    match String.fromUTF8? ⟨bytes.toArray⟩ with
    | some meant => return part ++ meant.toList ++ (← uriParts kind start fuel)
    | none =>
      throw (.foundWhile ("while scanning a " ++ kind) (some start)
        "found escapes that are not the bytes of a text" place)

def uri (kind : String) (start : Mark) : Scan String := do
  let next ← Scan.peek
  if !next.any isUriChar then
    Scan.fail ("while parsing a " ++ kind) start ("expected URI, but found " ++ shownChar next)
  return String.ofList (← uriParts kind start (← Scan.steps))

def tagHandle (kind : String) (start : Mark) : Scan String := do
  let expectMark : Scan Unit := do
    let next ← Scan.peek
    if next != some '!' then
      Scan.fail ("while scanning a " ++ kind) start ("expected '!', but found " ++ shownChar next)
    Scan.skip 1
  expectMark
  if (← Scan.peek) == some ' ' then return "!"
  let word ← Scan.takeWhile isWordChar
  expectMark
  return "!" ++ String.ofList word ++ "!"

def tagBody (start : Mark) : Scan TagText := do
  let next ← Scan.peekAt 1
  if next == some '<' then
    Scan.skip 2
    let suffix ← uri "tag" start
    let close ← Scan.peek
    if close != some '>' then
      Scan.fail "while parsing a tag" start ("expected '>', but found " ++ shownChar close)
    Scan.skip 1
    return ⟨none, suffix⟩
  else if endsToken next then
    Scan.skip 1
    return ⟨none, "!"⟩
  else
    let word := ((← get).rest.drop 1).takeWhile fun c => !endsWord (some c)
    if word.contains '!' then
      let handle ← tagHandle "tag" start
      return ⟨some handle, ← uri "tag" start⟩
    else
      Scan.skip 1
      return ⟨some "!", ← uri "tag" start⟩

def tagText : Scan TagText := do
  let start ← Scan.position
  let tag ← tagBody start
  let next ← Scan.peek
  if !endsWord next then
    Scan.fail "while scanning a tag" start ("expected ' ', but found " ++ shownChar next)
  return tag

inductive Directive
  | version (major : Nat)
  | tag (handle start : String)
  | other (name : String)
  deriving DecidableEq, Repr

def finishLine (context : String) (start : Mark) : Scan Unit := do
  Scan.skipWhile (· == ' ')
  Scan.skipComment
  let next ← Scan.peek
  if !endsLine next then
    Scan.fail context start ("expected a comment or a line break, but found " ++ shownChar next)
  discard Scan.lineBreak

namespace Directive

def fail {α : Type} (start : Mark) (expected : String) : Scan α := do
  Scan.fail "while scanning a directive" start
    ("expected " ++ expected ++ ", but found " ++ shownChar (← Scan.peek))

def number (start : Mark) : Scan Nat := do
  let digits ← Scan.takeWhile Char.isDigit
  if digits.isEmpty then fail start "a digit"
  if digitLimit < digits.length then throw .noValue
  return readDigits digits

def versionValue (start : Mark) : Scan Directive := do
  Scan.skipWhile (· == ' ')
  let major ← number start
  if (← Scan.peek) != some '.' then fail start "a digit or '.'"
  Scan.skip 1
  discard (number start)
  if !endsWord (← Scan.peek) then fail start "a digit or ' '"
  return version major

def tagValue (start : Mark) : Scan Directive := do
  Scan.skipWhile (· == ' ')
  let handle ← tagHandle "directive" start
  if (← Scan.peek) != some ' ' then fail start "' '"
  Scan.skipWhile (· == ' ')
  let meaning ← uri "directive" start
  if !endsWord (← Scan.peek) then fail start "' '"
  return tag handle meaning

def scan : Scan Directive := do
  let start ← Scan.position
  Scan.skip 1
  let name ← Scan.takeWhile isWordChar
  if name.isEmpty || !endsWord (← Scan.peek) then fail start "alphabetic or numeric character"
  let directive ← match String.ofList name with
    | "YAML" => versionValue start
    | "TAG" => tagValue start
    | name => do
      Scan.skipWhile (!isBreak ·)
      pure (other name)
  finishLine "while scanning a directive" start
  return directive

end Directive

end TypedClient.Yaml

import TypedClient.Json.Token
import TypedClient.Text.Quoted
import TypedClient.Text.Replace
import TypedClient.Toml.Layout

namespace TypedClient.Toml

/-- What precedes the first separator and what follows it; none if there is no separator. -/
def cutAt? (separator : List Char) : List Char → Option (List Char × List Char)
  | [] => none
  | c :: rest =>
    if separator.isPrefixOf (c :: rest) then some ([], (c :: rest).drop separator.length)
    else (cutAt? separator rest).map fun (before, after) => (c :: before, after)

/-- The pieces between at most `most` separators, from the left. -/
def pieces (separator : List Char) : Nat → List Char → List (List Char)
  | 0, text => [text]
  | most + 1, text =>
    match cutAt? separator text with
    | none => [text]
    | some (before, after) => before :: pieces separator most after

def allPieces (separator : List Char) (text : List Char) : List (List Char) :=
  pieces separator text.length text

def closeSingles : List (List Char) → List (List Char) → List (List Char) × List (List Char)
  | singles, [] => (singles, [])
  | singles, next :: rest =>
    if singles.length % 2 == 0 then
      let last := (singles.getLast?.getD []) ++ '"' :: next
      closeSingles (singles.dropLast ++ Text.splitWhere (· == '\'') last) rest
    else (singles, next :: rest)

def cutFirst : List (List Char) → List (List Char)
  | [] => []
  | first :: rest => Text.splitWhere (· == '\'') first ++ rest

def quotePieces (text : List Char) : List (List Char) :=
  match Text.splitWhere (· == '"') text with
  | first :: second :: rest =>
    if first.contains '\'' then
      let (singles, rest) := closeSingles (Text.splitWhere (· == '\'') first) (second :: rest)
      singles ++ cutFirst rest
    else cutFirst (first :: second :: rest)
  | parts => cutFirst parts

def firstOutside (separator : List Char) : Bool → List (List Char) → Nat
  | _, [] => 1
  | quoted, piece :: rest =>
    let count := (allPieces separator piece).length - 1
    if !quoted && 0 < count then 1 else count + firstOutside separator (!quoted) rest

def trailingBackslashes (text : List Char) : Nat := (text.reverse.takeWhile (· == '\\')).length

/-- Whether nothing follows the quote that closes a text, given the pieces between the quotes. -/
def closesOnce (long : Bool) : Bool → Nat → List (List Char) → Bool
  | _, _, [] => true
  | closed, count, piece :: rest =>
    if piece.isEmpty then
      if long then closesOnce long closed (count + 1) rest else closesOnce long true count rest
    else if trailingBackslashes piece % 2 == 1 then closesOnce long closed count rest
    else if closed then false
    else if !long || 1 < count then closesOnce long true count rest
    else closesOnce long closed 0 rest

def isClosedOnce (quote : Char) (behind : List Char) : Bool :=
  match Text.splitWhere (· == quote) behind with
  | [] :: [] :: rest => closesOnce true false 0 rest
  | parts => closesOnce false false 0 parts

def escape? : Char → Option Char
  | '0' => some '\x00'
  | 'b' => some '\x08'
  | 'f' => some '\x0c'
  | 'n' => some '\n'
  | 'r' => some '\r'
  | 't' => some '\t'
  | '"' => some '"'
  | _ => none

def isCodeMark (c : Char) : Bool := c == 'u' || c == 'U'

def hasEscapes : Bool → List (List Char) → Bool
  | _, [] => true
  | escaped, [] :: rest => hasEscapes (!escaped) rest
  | escaped, (c :: _) :: rest =>
    ((escape? c).isSome || isCodeMark c || escaped) && hasEscapes false rest

/-- The character of a code at the start of a text, and what follows; surrogates have none, and one
that slips through becomes the replacement character. -/
def codeChar (width : Nat) (text : List Char) : Except Fault (List Char) := do
  let digits := (text.take width).map Char.toLower
  if digits.any fun c => (Json.hexValue? c).isNone then
    throw (.message ("Invalid escape sequence: " ++ String.ofList digits))
  let isSurrogate ← match digits with
    | [] => throw .beyond
    | 'd' :: [] => throw .beyond
    | 'd' :: c :: _ => pure (!('0' ≤ c && c ≤ '7'))
    | _ => pure false
  if isSurrogate then
    throw (.message ("Invalid escape sequence: " ++ String.ofList digits ++
      ". Only scalar unicode points are allowed."))
  let code := digits.foldl (fun value c => value * 16 + (Json.hexValue? c).getD 0) 0
  if 0x7FFFFFFF < code then throw .outOfRange
  if 0x10FFFF < code then throw (.message "chr() arg not in range(0x110000)")
  let c := if 0xD800 ≤ code && code < 0xE000 then '\ufffd' else Char.ofNat code
  return c :: text.drop width

/-- Replaces the codes behind a mark, piece by piece; a mark behind an escaped backslash is none. -/
def decodePieces (mark : List Char) (width : Nat) :
    Bool → List (List Char) → Except Fault (List Char)
  | _, [] => .ok []
  | true, piece :: rest => do
    let more ← decodePieces mark width (trailingBackslashes piece % 2 == 1) rest
    return mark ++ piece ++ more
  | false, piece :: rest => do
    let decoded ← codeChar width piece
    return decoded ++ (← decodePieces mark width false rest)

def decodeCodes (mark : List Char) (width : Nat) (text : List Char) : Except Fault (List Char) := do
  match allPieces mark text with
  | [] => return []
  | first :: rest =>
    return first ++ (← decodePieces mark width (trailingBackslashes first % 2 == 1) rest)

def reservedEscape : Fault := .message "Reserved escape sequence used"

def unescape : List Char → Except Fault (List Char)
  | '\\' :: c :: rest =>
    match escape? c with
    | some meant => do return meant :: (← unescape rest)
    | none =>
      if c == '\\' then do return c :: (← unescape rest)
      else if isCodeMark c then do return '\\' :: c :: (← unescape rest)
      else .error reservedEscape
  | c :: rest => do return c :: (← unescape rest)
  | [] => .ok []

def inner (text : List Char) : List Char := (text.drop 1).dropLast

def unquote (text : List Char) : List Char :=
  match text with
  | first :: second :: rest =>
    if second == first && (rest.isEmpty || rest.head? == some second) then
      inner ((rest.dropLast).dropLast)
    else inner text
  | _ => inner text

def readText (text : List Char) : Except Fault String := do
  let quote := text.headD '"'
  if !isClosedOnce quote (text.drop 1) then
    throw (.message "Found tokens after a closed string. Invalid TOML.")
  if quote != '"' then return String.ofList (unquote text)
  if !hasEscapes false ((Text.splitWhere (· == '\\') text).drop 1) then throw reservedEscape
  let text ← decodeCodes ['\\', 'u'] 4 text
  let text ← decodeCodes ['\\', 'U'] 8 text
  return String.ofList (unquote (← unescape text))

end TypedClient.Toml

import TypedClient.Yaml.Block
import TypedClient.Yaml.Plain

/-!
The tokens of a text. Blocks are told apart by columns; a key without a mark of its own is known as
one only by the colon behind it, on the same line and not too far away.
-/

namespace TypedClient.Yaml

inductive Lexeme
  | directive (directive : Directive)
  | documentStart
  | documentEnd
  | streamEnd
  | blockSequence
  | blockMapping
  | blockEnd
  | flowSequence
  | flowSequenceEnd
  | flowMapping
  | flowMappingEnd
  | flowEntry
  | blockEntry
  | key
  | value
  | reference (name : String)
  | anchor (name : String)
  | tag (tag : TagText)
  | scalar (text : String) (plain : Bool)
  /-- From here on the text cannot be read. -/
  | broken (problem : Problem)
  deriving DecidableEq, Repr

namespace Lexeme

def name : Lexeme → String
  | directive _ => "<directive>"
  | documentStart => "<document start>"
  | documentEnd => "<document end>"
  | streamEnd => "<stream end>"
  | blockSequence => "<block sequence start>"
  | blockMapping => "<block mapping start>"
  | blockEnd => "<block end>"
  | flowSequence => "["
  | flowSequenceEnd => "]"
  | flowMapping => "\x7b"
  | flowMappingEnd => "\x7d"
  | flowEntry => ","
  | blockEntry => "-"
  | key => "?"
  | value => ":"
  | reference _ => "<alias>"
  | anchor _ => "<anchor>"
  | tag _ => "<tag>"
  | scalar _ _ => "<scalar>"
  | broken _ => "<problem>"

def shown (lexeme : Lexeme) : String := quotedName lexeme.name

end Lexeme

structure Token where
  lexeme : Lexeme
  start : Mark
  stop : Mark
  deriving Repr

structure PossibleKey where
  /-- The number of tokens in front of it. -/
  number : Nat
  /-- Nothing but a key can stand here. -/
  required : Bool
  mark : Mark
  deriving Repr

structure Scanner where
  cursor : Cursor
  /-- The latest token stands in front. -/
  tokens : List Token := []
  count : Nat := 0
  /-- The column of the innermost block, and those of the blocks around it. -/
  indent : Int := -1
  outer : List Int := []
  /-- Whether a key may begin at the cursor. -/
  keysAllowed : Bool := true
  /-- The possible keys of the brackets that are open, the innermost in front, and of the blocks. -/
  keys : List (Option PossibleKey) := [none]
  ended : Bool := false

abbrev Scanning := StateT Scanner (Except Problem)

namespace Scanner

def keyLength : Nat := 1024

def inFlow (scanner : Scanner) : Bool := 1 < scanner.keys.length

def scanned {α : Type} (action : Scan α) : Scanning α := do
  let (result, cursor) ← liftM (action.run (← get).cursor)
  modify ({ · with cursor })
  return result

def position : Scanning Mark := return (← get).cursor.mark

def add (lexeme : Lexeme) (start : Mark) : Scanning Unit := do
  let stop ← position
  modify fun s => { s with tokens := ⟨lexeme, start, stop⟩ :: s.tokens, count := s.count + 1 }

def insertAt (number : Nat) (lexemes : List Lexeme) (mark : Mark) : Scanning Unit :=
  modify fun s =>
    let behind := s.count - number
    let added := lexemes.reverse.map (⟨·, mark, mark⟩)
    { s with
      tokens := s.tokens.take behind ++ added ++ s.tokens.drop behind
      count := s.count + added.length }

def allowKeys (allowed : Bool) : Scanning Unit := modify ({ · with keysAllowed := allowed })

def dropKey (key : PossibleKey) : Scanning (Option PossibleKey) := do
  if key.required then
    throw (.foundWhile "while scanning a simple key" (some key.mark) "could not find expected ':'"
      (← position))
  return none

def setKey (key : Option PossibleKey) : Scanning Unit :=
  modify fun s => { s with keys := key :: s.keys.drop 1 }

def dropInnerKey : Scanning Unit := do
  match (← get).keys with
  | some key :: _ => setKey (← dropKey key)
  | _ => return

def dropStaleKeys : Scanning Unit := do
  let mark ← position
  let keys ← (← get).keys.mapM fun key => match key with
    | some key =>
      if key.mark.line != mark.line || key.mark.index + keyLength < mark.index then dropKey key
      else pure (some key)
    | none => pure none
  modify ({ · with keys })

def noteKey : Scanning Unit := do
  if !(← get).keysAllowed then return
  dropInnerKey
  let s ← get
  let mark ← position
  setKey (some ⟨s.count, !s.inFlow && s.indent == mark.column, mark⟩)

def enterBlock (column : Nat) : Scanning Bool :=
  modifyGet fun s =>
    if s.indent < (column : Int) then
      (true, { s with indent := column, outer := s.indent :: s.outer })
    else (false, s)

def leave (column : Int) : Int → List Int → Nat × Int × List Int
  | indent, [] => (0, indent, [])
  | indent, next :: outer =>
    if column < indent then
      let (count, rest) := leave column next outer
      (count + 1, rest)
    else (0, indent, next :: outer)

def leaveBlocks (column : Int) : Scanning Unit := do
  let s ← get
  if s.inFlow then return
  let (count, indent, outer) := leave column s.indent s.outer
  set { s with indent, outer }
  (List.range count).forM fun _ => do add .blockEnd (← position)

def skipBlanks : Nat → Scanning Unit
  | 0 => return
  | fuel + 1 => do
    let broke ← scanned do
      Scan.skipWhile (· == ' ')
      Scan.skipComment
      return !(← Scan.lineBreak).isEmpty
    if broke then
      if !(← get).inFlow then allowKeys true
      skipBlanks fuel

def toNextToken : Scanning Unit := do
  scanned do
    if (← Scan.position).index == 0 && (← Scan.peek) == some '\ufeff' then Scan.skip 1
  skipBlanks (← scanned Scan.steps)

def addMark (lexeme : Lexeme) (length : Nat) : Scanning Unit := do
  let start ← position
  scanned (Scan.skip length)
  add lexeme start

def documentMark (action : Scan Lexeme) : Scanning Unit := do
  leaveBlocks (-1)
  dropInnerKey
  allowKeys false
  let start ← position
  add (← scanned action) start

def openFlow (lexeme : Lexeme) : Scanning Unit := do
  noteKey
  modify fun s => { s with keys := none :: s.keys, keysAllowed := true }
  addMark lexeme 1

def closeFlow (lexeme : Lexeme) : Scanning Unit := do
  dropInnerKey
  modify fun s => { s with
    keys := if s.inFlow then s.keys.drop 1 else s.keys
    keysAllowed := false }
  addMark lexeme 1

def separateFlow : Scanning Unit := do
  allowKeys true
  dropInnerKey
  addMark .flowEntry 1

def enterMarked (block : Lexeme) (what : String) : Scanning Unit := do
  let s ← get
  if s.inFlow then return
  let mark ← position
  if !s.keysAllowed then throw (.found (what ++ " are not allowed here") mark)
  if ← enterBlock mark.column then add block mark

def blockEntry : Scanning Unit := do
  enterMarked .blockSequence "sequence entries"
  allowKeys true
  dropInnerKey
  addMark .blockEntry 1

def markedKey : Scanning Unit := do
  enterMarked .blockMapping "mapping keys"
  allowKeys (!(← get).inFlow)
  dropInnerKey
  addMark .key 1

def value : Scanning Unit := do
  let s ← get
  match s.keys with
  | some key :: _ =>
    setKey none
    let opens ← if s.inFlow then pure false else enterBlock key.mark.column
    insertAt key.number (if opens then [.blockMapping, .key] else [.key]) key.mark
    allowKeys false
  | _ =>
    enterMarked .blockMapping "mapping values"
    allowKeys (!s.inFlow)
    dropInnerKey
  addMark .value 1

def keyPart (action : Scan Lexeme) : Scanning Unit := do
  noteKey
  allowKeys false
  let start ← position
  add (← scanned action) start

def plain : Scanning Unit := do
  noteKey
  let s ← get
  let start ← position
  let (text, crossesLine) ← scanned (plainText s.inFlow (s.indent + 1))
  allowKeys crossesLine
  add (.scalar text true) start

def block (folded : Bool) : Scanning Unit := do
  allowKeys true
  dropInnerKey
  let start ← position
  let text ← scanned (blockText folded (← get).indent)
  add (.scalar text false) start

def finish : Scanning Unit := do
  leaveBlocks (-1)
  dropInnerKey
  add .streamEnd (← position)
  modify ({ · with ended := true })

def fetchAt (c : Char) : Scanning Unit := do
  let inFlow := (← get).inFlow
  let next ← scanned (Scan.peekAt 1)
  let startsLine := (← position).column == 0
  let separates := startsLine && (← scanned atSeparator)
  if c == '%' && startsLine then documentMark (.directive <$> Directive.scan)
  else if c == '-' && separates then
    documentMark do
      Scan.skip 3
      return .documentStart
  else if c == '.' && separates then
    documentMark do
      Scan.skip 3
      return .documentEnd
  else if c == '[' then openFlow .flowSequence
  else if c == '\x7b' then openFlow .flowMapping
  else if c == ']' then closeFlow .flowSequenceEnd
  else if c == '\x7d' then closeFlow .flowMappingEnd
  else if c == ',' then separateFlow
  else if c == '-' && endsToken next then blockEntry
  else if c == '?' && (inFlow || endsToken next) then markedKey
  else if c == ':' && (inFlow || endsToken next) then value
  else if c == '*' then keyPart (.reference <$> nameText "alias")
  else if c == '&' then keyPart (.anchor <$> nameText "anchor")
  else if c == '!' then keyPart (.tag <$> tagText)
  else if (c == '|' || c == '>') && !inFlow then block (c == '>')
  else if c == '\'' || c == '"' then keyPart ((.scalar · false) <$> quotedText (c == '"'))
  else if opensPlain inFlow c next then plain
  else
    throw (.foundWhile "while scanning for the next token" none
      ("found character " ++ shownChar (some c) ++ " that cannot start any token") (← position))

def fetch : Scanning Unit := do
  toNextToken
  dropStaleKeys
  leaveBlocks (← position).column
  match ← scanned Scan.peek with
  | none => finish
  | some c =>
    fetchAt c
    dropStaleKeys

/-- The tokens that are certain before the next one is read: a key may still be put in front of
those behind a possible key. -/
def certain (scanner : Scanner) : List Token :=
  let numbers := scanner.keys.filterMap fun key => key.map (·.number)
  scanner.tokens.reverse.take (numbers.foldl min scanner.count)

def tokensFrom : Nat → Scanner → List Token
  | 0, scanner => scanner.tokens.reverse
  | fuel + 1, scanner =>
    match StateT.run fetch scanner with
    | .ok ((), next) => if next.ended then next.tokens.reverse else tokensFrom fuel next
    | .error problem =>
      scanner.certain ++ [⟨.broken problem, scanner.cursor.mark, scanner.cursor.mark⟩]

end Scanner

def tokens (text : List Char) : List Token :=
  Scanner.tokensFrom (text.length + 2) { cursor := .ofText text }

end TypedClient.Yaml

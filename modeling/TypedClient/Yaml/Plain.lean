import TypedClient.Yaml.Cursor

/-!
Texts without quotes. Inside brackets they end at every mark of the brackets; elsewhere they go on
over lines that are indented far enough.
-/

namespace TypedClient.Yaml

def isFlowMark (c : Char) : Bool :=
  c == ',' || c == '[' || c == ']' || c == '\x7b' || c == '\x7d'

def endsPlain (inFlow : Bool) (c : Char) (next : Option Char) : Bool :=
  isSpace c || isBreak c || (c == ':' && (endsToken next || (inFlow && next.any isFlowMark))) ||
    (inFlow && (c == '?' || isFlowMark c))

def plainLength (inFlow : Bool) : List Char → Nat
  | [] => 0
  | c :: rest => if endsPlain inFlow c rest.head? then 0 else plainLength inFlow rest + 1

def opensPlain (inFlow : Bool) (c : Char) (next : Option Char) : Bool :=
  !(isSpace c || isBreak c || "-?:,[]\x7b\x7d#&*!|>'\"%@\x60".toList.contains c) ||
    (!endsToken next && (c == '-' || (!inFlow && (c == '?' || c == ':'))))

/-- Blanks behind a word. No text stands for blanks in front of a separator of documents. -/
structure PlainBlanks where
  text : List Char := []
  crossesLine : Bool := false

def plainBreaks : Nat → Scan (Option (List Char))
  | 0 => return some []
  | fuel + 1 => do
    if ← atSeparator then return none
    Scan.skipWhile (· == ' ')
    if (← Scan.peek).any isBreak then
      let first ← Scan.lineBreak
      return (← plainBreaks fuel).map (first ++ ·)
    else return some []

def plainBlanks : Scan PlainBlanks := do
  let spaces ← Scan.takeWhile (· == ' ')
  if !(← Scan.peek).any isBreak then return { text := spaces }
  let first ← Scan.lineBreak
  match ← plainBreaks (← Scan.steps) with
  | none => return { crossesLine := true }
  | some more =>
    let text := if first != ['\n'] then first ++ more else if more.isEmpty then [' '] else more
    return { text, crossesLine := true }

def plainWords (inFlow : Bool) (indent : Int) : Nat → PlainBlanks → Scan (List Char × Bool)
  | 0, blanks => return ([], blanks.crossesLine)
  | fuel + 1, blanks => do
    let length := plainLength inFlow (← get).rest
    if (← Scan.peek) == some '#' || length == 0 then return ([], blanks.crossesLine)
    let word ← Scan.takeCount length
    let next ← plainBlanks
    if next.text.isEmpty || (← Scan.peek) == some '#' ||
        (!inFlow && ((← Scan.position).column : Int) < indent) then
      return (blanks.text ++ word, next.crossesLine)
    let (more, crossesLine) ← plainWords inFlow indent fuel next
    return (blanks.text ++ word ++ more, crossesLine)

def plainText (inFlow : Bool) (indent : Int) : Scan (String × Bool) := do
  let (text, crossesLine) ← plainWords inFlow indent (← Scan.steps) {}
  return (String.ofList text, crossesLine)

end TypedClient.Yaml

import TypedClient.Error
import TypedClient.Json.Token
import TypedClient.Pattern.Basic

/-!
Reading patterns from their notation. A text that is no pattern has no reading: a bracket without
its partner, a repetition of nothing, an escape that means nothing, or a range that runs backwards.
-/

namespace TypedClient

namespace Pattern

structure Sign where
  char : Char
  escaped : Bool
  deriving DecidableEq, Repr

def signs? : List Char → Option (List Sign)
  | [] => some []
  | ['\\'] => none
  | '\\' :: c :: rest => (signs? rest).map (⟨c, true⟩ :: ·)
  | c :: rest => (signs? rest).map (⟨c, false⟩ :: ·)

structure Options where
  ignoreCase : Bool := false
  lines : Bool := false
  dotAll : Bool := false
  verbose : Bool := false
  plain : Bool := false
  deriving DecidableEq, Repr

def Options.casing (options : Options) : Casing :=
  if !options.ignoreCase then .exact else if options.plain then .plain else .full

structure Width where
  least : Nat
  most : Nat
  deriving DecidableEq, Repr

namespace Width

def unbounded : Nat := 18446744073709551616

def add (a b : Width) : Width :=
  ⟨min (a.least + b.least) unbounded, min (a.most + b.most) unbounded⟩

def either (a b : Width) : Width := ⟨min a.least b.least, max a.most b.most⟩

def repeated (width : Width) (least : Nat) (most : Option Nat) : Width :=
  let most := match most with
    | some most => width.most * most
    | none => if width.most == 0 then 0 else unbounded
  ⟨min (width.least * least) unbounded, min most unbounded⟩

end Width

def width (groups : Array (Option Width)) : Pattern → Width
  | one _ => ⟨1, 1⟩
  | sequence first second => (width groups first).add (width groups second)
  | choice first second => (width groups first).either (width groups second)
  | repeated body least most _ => (width groups body).repeated least most
  | capture _ body => width groups body
  | again number _ => ((groups[number - 1]?).join).getD ⟨0, 0⟩
  | firstWay body => width groups body
  | given _ yes no => (width groups yes).either (width groups no)
  | empty | edge _ | ahead _ _ | behind _ _ _ => ⟨0, 0⟩
termination_by structural pattern => pattern

structure Draft where
  rest : List Sign
  /-- The options for the whole. -/
  options : Options := {}
  /-- Whether the whole is said to go beyond ASCII. -/
  wide : Bool := false
  /-- The widths of the groups in order of their opening; an open group has none. -/
  groups : Array (Option Width) := #[]
  names : List (String × Nat) := []
  /-- The number of groups in front of the outermost look back. -/
  behindFrom : Option Nat := none
  /-- The numbers that conditions name. -/
  conditions : List Nat := []
  /-- Whether a look back takes a varying number of characters. -/
  varies : Bool := false

abbrev Drafting := StateT Draft (Except PatternFault)

namespace Draft

def refuse {α : Type} : Drafting α := throw .malformed

def peek : Drafting (Option Sign) := return (← get).rest.head?

def take : Drafting Sign := do
  match (← get).rest with
  | [] => refuse
  | sign :: rest =>
    modify ({ · with rest })
    return sign

def takes (c : Char) : Drafting Bool := do
  if (← peek) != some ⟨c, false⟩ then return false
  discard take
  return true

def expect (c : Char) : Drafting Unit := do
  if !(← takes c) then refuse

/-- Takes at most `count` plain characters that satisfy `p`. -/
def takeSome (count : Nat) (p : Char → Bool) : Drafting (List Char) :=
  modifyGet fun draft =>
    let taken := (draft.rest.take count).takeWhile fun sign => !sign.escaped && p sign.char
    (taken.map (·.char), { draft with rest := draft.rest.drop taken.length })

/-- Takes what precedes a character, which is not nothing, and the character. -/
def takeUntil (c : Char) : Drafting (List Sign) := do
  let taken := (← get).rest.takeWhile (· != ⟨c, false⟩)
  modify fun draft => { draft with rest := draft.rest.drop taken.length }
  expect c
  if taken.isEmpty then refuse
  return taken

/-! Escapes -/

def isOctal (c : Char) : Bool := '0' ≤ c && c ≤ '7'

def readCode (base : Nat) (digits : List Char) : Nat :=
  digits.foldl (fun value c => value * base + (Json.hexValue? c).getD 0) 0

def classOf? : Char → Option (CharClass × Bool)
  | 'd' => some (.digit, false)
  | 'D' => some (.digit, true)
  | 's' => some (.blank, false)
  | 'S' => some (.blank, true)
  | 'w' => some (.word, false)
  | 'W' => some (.word, true)
  | _ => none

def controlOf? : Char → Option Char
  | 'a' => some '\x07'
  | 'f' => some '\x0c'
  | 'n' => some '\n'
  | 'r' => some '\r'
  | 't' => some '\t'
  | 'v' => some '\x0b'
  | _ => none

def codeWidth? : Char → Option Nat
  | 'x' => some 2
  | 'u' => some 4
  | 'U' => some 8
  | _ => none

def hexCode (count : Nat) : Drafting Nat := do
  let digits ← takeSome count fun c => (Json.hexValue? c).isSome
  if digits.length < count then refuse
  let code := readCode 16 digits
  if 0x7FFFFFFF < code then throw .outOfRange
  if 0x10FFFF < code then refuse
  return code

def octalCode (digits : List Char) : Drafting Nat := do
  let code := readCode 8 digits
  if 0xFF < code then refuse
  return code

def escapedRange (options : Options) (c : Char) : Drafting CharRange := do
  match classOf? c, controlOf? c, codeWidth? c with
  | some (kind, negated), _, _ => return .of kind options.plain negated
  | none, some control, _ => return .span control.toNat control.toNat
  | none, none, some count =>
    let code ← hexCode count
    return .span code code
  | none, none, none =>
    if c.isAlphanum then refuse
    return .span c.toNat c.toNat

def isClosed (number : Nat) : Drafting Bool :=
  return ((← get).groups[number - 1]?).join.isSome

def checkBehind (number : Nat) : Drafting Unit := do
  if let some first := (← get).behindFrom then
    if !(← isClosed number) || first < number then refuse

def reference (options : Options) (number : Nat) : Drafting Pattern := do
  if !(← isClosed number) then refuse
  checkBehind number
  return .again number options.casing

def escapedNumber (options : Options) (first : Char) : Drafting Pattern := do
  if first == '0' then
    let code := readCode 8 (← takeSome 2 isOctal)
    return .one (.just code options.casing)
  let second ← takeSome 1 Char.isDigit
  let third ← if isOctal first && second.any isOctal then takeSome 1 isOctal else pure []
  let digits := first :: second ++ third
  if third.isEmpty then reference options (readCode 10 digits)
  else return .one (.just (← octalCode digits) options.casing)

def edgeOf? (options : Options) : Char → Option Edge
  | 'A' => some .start
  | 'Z' => some .finish
  | 'b' => some (.wordEdge options.plain false)
  | 'B' => some (.wordEdge options.plain true)
  | _ => none

/-! Sets of characters -/

def member (options : Options) (sign : Sign) : Drafting CharRange := do
  let c := sign.char
  if !sign.escaped then return .span c.toNat c.toNat
  else if c == 'b' then return .span 8 8
  else if isOctal c then
    let code ← octalCode (c :: (← takeSome 2 isOctal))
    return .span code code
  else escapedRange options c

def members (options : Options) (ranges : List CharRange) : Nat → Drafting (List CharRange)
  | 0 => refuse
  | fuel + 1 => do
    let sign ← take
    if sign == ⟨']', false⟩ && !ranges.isEmpty then return ranges
    let low ← member options sign
    if !(← takes '-') then members options (ranges ++ [low]) fuel
    else
      let sign ← take
      if sign == ⟨']', false⟩ then return ranges ++ [low, .span '-'.toNat '-'.toNat]
      match low, ← member options sign with
      | .span first _, .span last _ =>
        if last < first then refuse
        members options (ranges ++ [.span first last]) fuel
      | _, _ => refuse

def charSet (options : Options) : Drafting Pattern := do
  let negated ← takes '^'
  let ranges ← members options [] (← get).rest.length
  return .one (.among ranges negated options.casing)

/-! Repetitions -/

def roundLimit : Nat := 4294967295

def readRounds (digits : List Char) : Drafting Nat := do
  let count := readDigits digits
  if roundLimit ≤ count then throw .outOfRange
  return count

def bounds? : Drafting (Option (Nat × Option Nat)) := do
  let before ← get
  let all := before.rest.length
  let least ← takeSome all Char.isDigit
  let separated ← takes ','
  let most ← if separated then takeSome all Char.isDigit else pure least
  if !(← takes '\x7d') || (least.isEmpty && !separated) then
    set before
    return none
  let least ← readRounds least
  if most.isEmpty then return some (least, none)
  let most ← readRounds most
  if most < least then refuse
  return some (least, some most)

inductive PartKind
  | edge
  | repetition
  | other
  deriving DecidableEq, Repr

structure Part where
  pattern : Pattern
  kind : PartKind := .other

def mood : Drafting Mood := do
  if ← takes '?' then return .reluctant
  else if ← takes '+' then return .possessive
  else return .greedy

def repeatLast (least : Nat) (most : Option Nat) : List Part → Drafting (List Part)
  | ⟨body, .other⟩ :: done => do
    return ⟨.repeated body least most (← mood), .repetition⟩ :: done
  | _ => refuse

def ofParts (parts : List Part) : Pattern :=
  parts.foldl (fun behind part => match behind with
    | .empty => part.pattern
    | _ => .sequence part.pattern behind) .empty

/-! Groups -/

def nameOf (signs : List Sign) : Drafting String := do
  let chars := signs.map (·.char)
  let isName := !signs.any (·.escaped) && chars.all Text.isWord && !chars.head?.any Text.isDecimal
  if !isName then refuse
  return String.ofList chars

def openGroup (name : Option String) : Drafting Nat := do
  let number := (← get).groups.size + 1
  modify fun draft => { draft with groups := draft.groups.push none }
  if let some name := name then
    if ((← get).names.lookup name).isSome then refuse
    modify fun draft => { draft with names := (name, number) :: draft.names }
  return number

def closeGroup (number : Nat) (body : Pattern) : Drafting Unit :=
  modify fun draft =>
    { draft with
      groups := draft.groups.setIfInBounds (number - 1) (some (body.width draft.groups)) }

def groupNamed (name : String) : Drafting Nat := do
  match (← get).names.lookup name with
  | some number => return number
  | none => refuse

def conditionGroup : Drafting Nat := do
  let signs ← takeUntil ')'
  let chars := signs.map (·.char)
  let isNumber := !chars.head?.any fun c => Text.isWord c && !Text.isDecimal c
  let number ← if !isNumber then groupNamed (← nameOf signs)
    else if signs.any (·.escaped) then refuse
    else
      match readInteger? 10 chars with
      | some (.ofNat (number + 1)) => pure (number + 1)
      | _ => refuse
  modify fun draft => { draft with conditions := number :: draft.conditions }
  checkBehind number
  return number

def isOption (c : Char) : Bool := "aimsxut".toList.contains c

def optionLetters (ends : List Char) : Drafting (List Char × Char) := do
  let letters ← takeSome (← get).rest.length isOption
  let close ← take
  if letters.isEmpty || close.escaped || !ends.contains close.char then refuse
  return (letters, close.char)

def isScope (c : Char) : Bool := c == 'a' || c == 'u'

def Options.with (options : Options) (letters : List Char) (on : Bool) : Options :=
  letters.foldl (fun options c => match c with
    | 'i' => { options with ignoreCase := on }
    | 'm' => { options with lines := on }
    | 's' => { options with dotAll := on }
    | 'x' => { options with verbose := on }
    | 'a' => { options with plain := on }
    | 'u' => { options with plain := !on }
    | _ => options) options

def groupOptions (options : Options) (isStart : Bool) : Drafting (Option Options) := do
  let (added, close) ← if ← takes '-' then pure ([], '-') else optionLetters [')', ':', '-']
  if added.contains 'a' && added.contains 'u' then refuse
  if close == ')' then
    if !isStart then refuse
    modify fun draft =>
      { draft with
        options := Options.with draft.options (added.filter (· != 'u')) true
        wide := draft.wide || added.contains 'u' }
    return none
  if added.contains 't' then refuse
  let removed ← if close == '-' then Prod.fst <$> optionLetters [':'] else pure []
  if removed.any fun c => isScope c || c == 't' || added.contains c then refuse
  return some (Options.with (Options.with options added true) removed false)

def skipComment : Drafting Unit := do
  modify fun draft => { draft with rest := draft.rest.dropWhile (· != ⟨')', false⟩) }
  expect ')'

inductive GroupKind
  | plain (options : Options)
  | named (name : String)
  | first
  | look (behind negated : Bool)
  | condition
  /-- Nothing is left to be read. -/
  | whole (part : Option Pattern)

def groupKind (options : Options) (isStart : Bool) : Drafting GroupKind := do
  let next ← peek
  if next.any fun sign => !sign.escaped && (isOption sign.char || sign.char == '-') then
    match ← groupOptions options isStart with
    | some options => return .plain options
    | none => return .whole none
  let sign ← take
  if sign.escaped then refuse
  match sign.char with
  | ':' => return .plain options
  | '#' =>
    skipComment
    return .whole none
  | '=' => return .look false false
  | '!' => return .look false true
  | '>' => return .first
  | '(' => return .condition
  | '<' =>
    if ← takes '=' then return .look true false
    expect '!'
    return .look true true
  | 'P' =>
    if ← takes '<' then return .named (← nameOf (← takeUntil '>'))
    expect '='
    let number ← groupNamed (← nameOf (← takeUntil ')'))
    return .whole (some (← reference options number))
  | _ => refuse

def lookingBack (content : Drafting Pattern) : Drafting Pattern := do
  let outer := (← get).behindFrom
  modify fun draft => { draft with behindFrom := outer <|> some draft.groups.size }
  let body ← content
  modify fun draft =>
    let width := body.width draft.groups
    { draft with behindFrom := outer, varies := draft.varies || width.least != width.most }
  return body

def skipLine : Drafting Unit :=
  modify fun draft =>
    { draft with rest := (draft.rest.dropWhile (· != ⟨'\n', false⟩)).drop 1 }

def isGap (c : Char) : Bool := c == ' ' || (9 ≤ c.toNat && c.toNat ≤ 13)

mutual

def alternatives (options : Options) (outermost isFirst : Bool) : Nat → Drafting Pattern
  | 0 => refuse
  | fuel + 1 => do
    let first ← parts options (outermost && isFirst) [] fuel
    if !(← takes '|') then return first
    let whole := (← get).options
    let options := if outermost then whole else options
    return .choice first (← alternatives options outermost false fuel)
termination_by structural fuel => fuel

def parts (options : Options) (mayOpen : Bool) (done : List Part) : Nat → Drafting Pattern
  | 0 => refuse
  | fuel + 1 => do
    let add (pattern : Pattern) : Drafting Pattern :=
      parts options mayOpen (⟨pattern, .other⟩ :: done) fuel
    let addEdge (place : Edge) : Drafting Pattern :=
      parts options mayOpen (⟨.edge place, .edge⟩ :: done) fuel
    match ← peek with
    | none | some ⟨'|', false⟩ | some ⟨')', false⟩ => return ofParts done
    | some ⟨c, true⟩ =>
      discard take
      if '0' ≤ c && c ≤ '9' then add (← escapedNumber options c)
      else
        match edgeOf? options c with
        | some place => addEdge place
        | none => add (.one (.among [← escapedRange options c] false options.casing))
    | some ⟨c, false⟩ =>
      discard take
      if options.verbose && isGap c then parts options mayOpen done fuel
      else if options.verbose && c == '#' then
        skipLine
        parts options mayOpen done fuel
      else
        match c with
        | '[' => add (← charSet options)
        | '.' => add (.one (if options.dotAll then .any else .anyInLine))
        | '^' => addEdge (if options.lines then .lineStart else .start)
        | '$' => addEdge (if options.lines then .lineEnd else .lastLineEnd)
        | '*' => parts options mayOpen (← repeatLast 0 none done) fuel
        | '+' => parts options mayOpen (← repeatLast 1 none done) fuel
        | '?' => parts options mayOpen (← repeatLast 0 (some 1) done) fuel
        | '\x7b' =>
          match ← bounds? with
          | some (least, most) => parts options mayOpen (← repeatLast least most done) fuel
          | none => add (.one (.just c.toNat options.casing))
        | '(' =>
          let kind ← if ← takes '?' then some <$> groupKind options (mayOpen && done.isEmpty)
            else pure none
          match kind with
          | some (.whole none) =>
            let whole := (← get).options
            parts (if mayOpen && done.isEmpty then whole else options) mayOpen done fuel
          | some (.whole (some pattern)) => add pattern
          | kind => add (← group options kind fuel)
        | c => add (.one (.just c.toNat options.casing))
termination_by structural fuel => fuel

def group (options : Options) (kind : Option GroupKind) : Nat → Drafting Pattern
  | 0 => refuse
  | fuel + 1 => do
    let content (options : Options) : Drafting Pattern := do
      let body ← alternatives options false true fuel
      expect ')'
      return body
    let held (name : Option String) : Drafting Pattern := do
      let number ← openGroup name
      let body ← content options
      closeGroup number body
      return .capture number body
    match kind with
    | none => held none
    | some (.named name) => held (some name)
    | some (.plain options) => content options
    | some .first => return .firstWay (← content options)
    | some (.look false negated) => return .ahead negated (← content options)
    | some (.look true negated) =>
      let body ← lookingBack (content options)
      return .behind (body.width (← get).groups).least negated body
    | some .condition =>
      let number ← conditionGroup
      let yes ← parts options false [] fuel
      let no ← if ← takes '|' then parts options false [] fuel else pure .empty
      expect ')'
      return .given number yes no
    | some (.whole part) => return part.getD .empty
termination_by structural fuel => fuel

end

def whole (fuel : Nat) : Drafting Pattern := do
  let pattern ← alternatives {} true true fuel
  let draft ← get
  if draft.wide && draft.options.plain then throw .contradictory
  if !draft.rest.isEmpty || draft.varies ||
      draft.conditions.any fun number => draft.groups.size < number then refuse
  return pattern

end Draft

def read (text : String) : Except PatternFault Pattern :=
  match signs? text.toList with
  | none => .error .malformed
  | some signs => (Draft.whole (3 * signs.length + 3)).run' { rest := signs }

end Pattern

end TypedClient

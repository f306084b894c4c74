import TypedClient.Text.Replace
import TypedClient.Text.Word

/-!
Arguments of a command: options by name, shortened as far as they stay clear, and arguments by
position. A run of arguments between options is taken as a whole.
-/

namespace TypedClient.CommandLine

structure OptionSpec where
  key : String
  names : List String
  takesValue : Bool := false
  choices : List String := []
  deriving DecidableEq, Repr

inductive Count
  | one
  | atMostOne
  | many
  deriving DecidableEq, Repr

structure Spec where
  options : List OptionSpec
  positionals : List (String × Count) := []

inductive Refusal
  | usage
  | help
  deriving DecidableEq, Repr

inductive Argument
  | plain (text : String)
  | separator
  | option (spec : OptionSpec) (short : Bool) (attached : Option String)
  | unknown (text : String)
  deriving DecidableEq, Repr

def helpOption : OptionSpec := { key := "help", names := ["-h", "--help"] }

def startsWith (start text : String) : Bool := start.toList.isPrefixOf text.toList

def isLong (text : String) : Bool := startsWith "--" text

def Spec.named? (spec : Spec) (name : String) : Option OptionSpec :=
  spec.options.find? (·.names.contains name)

def Spec.abbreviated (spec : Spec) (name : String) : List OptionSpec :=
  spec.options.flatMap fun option =>
    (option.names.filter (startsWith name)).map fun _ => option

def isNegativeNumber (text : String) : Bool :=
  match text.toList with
  | '-' :: number =>
    let body := if number.getLast? == some '\n' then number.dropLast else number
    let whole := body.takeWhile Text.isDecimal
    match body.drop whole.length with
    | [] => !whole.isEmpty
    | '.' :: fraction => !fraction.isEmpty && fraction.all Text.isDecimal
    | _ => false
  | _ => false

def splitAttached (text : String) : String × Option String :=
  let (name, value) := Text.cut '=' text.toList
  if text.toList.contains '=' then (String.ofList name, some (String.ofList value))
  else (text, none)

def Spec.candidates (spec : Spec) (text : String) : List Argument :=
  if isLong text then
    let (name, attached) := splitAttached text
    (spec.abbreviated name).map fun option => .option option false attached
  else
    let short := String.ofList (text.toList.take 2)
    let attached := String.ofList (text.toList.drop 2)
    ((spec.named? short).toList.map fun option => .option option true (some attached)) ++
      (spec.abbreviated text).map fun option => .option option false none

def Spec.classify (spec : Spec) (text : String) : Except Refusal Argument :=
  if !startsWith "-" text then .ok (.plain text)
  else
    match spec.named? text with
    | some option => .ok (.option option (!isLong text) none)
    | none =>
      if text.length == 1 then .ok (.plain text)
      else
        let (name, attached) := splitAttached text
        match attached, spec.named? name with
        | some value, some option => .ok (.option option false (some value))
        | _, _ =>
          match spec.candidates text with
          | [candidate] => .ok candidate
          | _ :: _ => .error .usage
          | [] =>
            if isNegativeNumber text || text.toList.contains ' ' then .ok (.plain text)
            else .ok (.unknown text)

def Spec.classifyAll (spec : Spec) : List String → Except Refusal (List Argument)
  | [] => .ok []
  | text :: rest =>
    if text == "--" then .ok (.separator :: rest.map .plain)
    else do return (← spec.classify text) :: (← spec.classifyAll rest)

structure Parsed where
  options : List (String × Option String) := []
  positionals : List (String × List String) := []
  extras : List String := []
  deriving Repr

namespace Parsed

def has (parsed : Parsed) (key : String) : Bool := parsed.options.any (·.1 == key)

def value? (parsed : Parsed) (key : String) : Option String :=
  (parsed.options.reverse.lookup key).join

def positional (parsed : Parsed) (key : String) : List String :=
  (parsed.positionals.lookup key).getD []

end Parsed

def isPositional : Argument → Bool
  | .plain _ => true
  | .separator => true
  | _ => false

def isSeparator (argument : Argument) : Bool := argument == .separator

def Argument.text : Argument → String
  | plain text => text
  | _ => "--"

/-- The arguments that one position takes off a run, and what is left; separators around them go
with them. None if the position needs an argument and there is none. -/
def Count.take? (count : Count) (run : List Argument) : Option (List Argument × List Argument) :=
  let before := run.takeWhile isSeparator
  match count, run.drop before.length with
  | .many, _ => some (run, [])
  | .one, [] => none
  | .atMostOne, [] => some (before, [])
  | _, argument :: rest =>
    let behind := rest.takeWhile isSeparator
    some (before ++ argument :: behind, rest.drop behind.length)

/-- The arguments of a run that each position takes, less one separator for each position, and what
is left; none if there are too few. -/
def share : List (String × Count) → List Argument →
    Option (List (String × List String) × List Argument)
  | [], run => some ([], run)
  | (key, count) :: positions, run => do
    let (taken, rest) ← count.take? run
    let (shared, left) ← share positions rest
    return ((key, (taken.map Argument.text).erase "--") :: shared, left)

def shareLongest (positions : List (String × Count)) (run : List Argument) :
    Nat → List (String × List String) × List Argument
  | 0 => ([], run)
  | count + 1 =>
    match share (positions.take (count + 1)) run with
    | some found => found
    | none => shareLongest positions run count

def Parsed.set (parsed : Parsed) (option : OptionSpec) (value : Option String) :
    Except Refusal Parsed :=
  if option.key == "help" then .error .help
  else if value.any fun text => !option.choices.isEmpty && !option.choices.contains text then
    .error .usage
  else .ok { parsed with options := parsed.options ++ [(option.key, value)] }

/-- What one argument sets: options in turn, of which the last may wait for its value, and letters
that name no option. -/
structure Setting where
  options : List (OptionSpec × Option String) := []
  waits : Bool := false
  unknown : Option String := none
  deriving DecidableEq, Repr

def Spec.letters (spec : Spec) : List Char → Except Refusal Setting
  | [] => .ok {}
  | c :: rest =>
    if c == '-' || c == '=' then .error .usage
    else
      match spec.named? (String.ofList ['-', c]) with
      | none => .ok { unknown := some (String.ofList ('-' :: c :: rest)) }
      | some option =>
        if option.takesValue then
          match rest with
          | [] => .ok { options := [(option, none)], waits := true }
          | '=' :: value => .ok { options := [(option, some (String.ofList value))] }
          | value => .ok { options := [(option, some (String.ofList value))] }
        else do
          let more ← spec.letters rest
          return { more with options := (option, none) :: more.options }

def Spec.setting (spec : Spec) (option : OptionSpec) (short : Bool) (attached : Option String) :
    Except Refusal Setting :=
  match attached with
  | none => .ok { options := [(option, none)], waits := option.takesValue }
  | some value =>
    if option.takesValue then .ok { options := [(option, some value)] }
    else if short then do
      let more ← spec.letters value.toList
      return { more with options := (option, none) :: more.options }
    else .error .usage

def Parsed.apply (parsed : Parsed) (setting : Setting) (value : Option String) :
    Except Refusal Parsed := do
  let parsed ← setting.options.foldlM (fun parsed option =>
    parsed.set option.1 (if option.1.takesValue then option.2.or value else none)) parsed
  return { parsed with extras := parsed.extras ++ setting.unknown.toList }

/-- Reads arguments in turn; `fuel` bounds the rounds, of which each takes an argument. -/
def Spec.readFrom (spec : Spec) : Nat → List (String × Count) → Parsed → List Argument →
    Except Refusal Parsed
  | 0, positions, parsed, _ => finish positions parsed []
  | fuel + 1, positions, parsed, arguments =>
    match arguments with
    | .option option short attached :: rest => do
      let setting ← spec.setting option short attached
      if setting.waits then
        match rest with
        | .plain value :: rest =>
          spec.readFrom fuel positions (← parsed.apply setting (some value)) rest
        | _ => .error .usage
      else spec.readFrom fuel positions (← parsed.apply setting none) rest
    | .unknown text :: rest =>
      spec.readFrom fuel positions { parsed with extras := parsed.extras ++ [text] } rest
    | arguments =>
      let run := arguments.takeWhile isPositional
      let rest := arguments.drop run.length
      if rest.isEmpty then finish positions parsed run
      else
        let (shared, left) := shareLongest positions run positions.length
        spec.readFrom fuel (positions.drop shared.length)
          { parsed with
            positionals := parsed.positionals ++ shared
            extras := parsed.extras ++ left.map Argument.text } rest
where
  /-- Gives out the last run; a position that needs an argument must have got one. -/
  finish (positions : List (String × Count)) (parsed : Parsed) (run : List Argument) :
      Except Refusal Parsed :=
    let (shared, left) := shareLongest positions run positions.length
    if shared.length < positions.length then .error .usage
    else .ok { parsed with
      positionals := parsed.positionals ++ shared
      extras := parsed.extras ++ left.map Argument.text }

def Spec.read (spec : Spec) (texts : List String) : Except Refusal Parsed := do
  let arguments ← spec.classifyAll texts
  spec.readFrom (arguments.length + 1) spec.positionals {} arguments

end TypedClient.CommandLine

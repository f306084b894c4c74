import TypedClient.Yaml.Node

/-!
What nodes mean. Scalars are read where they are met, collections later, those nearer to the root
first; so the first problem on this way is the one that counts.
-/

namespace TypedClient.Yaml

inductive Meaning
  | scalar (value : Scalar)
  | list (items : List Nat)
  | pairs (entries : List (Nat × Nat))
  | object (entries : List (Scalar × Nat))
  | set (keys : List Scalar)
  deriving Repr, Inhabited

structure Meanings where
  nodes : Array Node
  /-- The pairs in all mappings; merging goes no deeper. -/
  pairCount : Nat
  /-- What is known so far; a collection that waits counts as an empty list. -/
  known : Array (Option Meaning)
  /-- The collections still to be read, the latest in front. -/
  waiting : List Nat := []

abbrev Finding := StateT Meanings (Except Problem)

namespace Meanings

def nodeAt (id : Nat) : Finding Node := return (← get).nodes.getD id default

def setNode (id : Nat) (change : Node → Node) : Finding Unit :=
  modify fun s => { s with nodes := s.nodes.modify id change }

def learn (id : Nat) (meaning : Meaning) : Finding Unit :=
  modify fun s => { s with known := s.known.setIfInBounds id (some meaning) }

def textAt : Nat → Nat → Finding String
  | 0, _ => throw .noValue
  | fuel + 1, id => do
    let node ← nodeAt id
    let refuse : Finding String := throw
      (.found ("expected a scalar node, but found " ++ node.body.kind) node.start)
    match node.body with
    | .scalar text => return text
    | .sequence _ => refuse
    | .mapping pairs =>
      match ← pairs.findM? fun pair => return (← nodeAt pair.1).tag == .default with
      | some (_, value) => textAt fuel value
      | none => refuse

def scalarAt (id : Nat) : Finding Scalar := do
  let node ← nodeAt id
  let refuse : Finding Scalar :=
    throw (.found "could not determine a constructor for the tag" node.start)
  let text : Finding String := do textAt (← get).nodes.size id
  match node.tag with
  | .null =>
    discard text
    return .null
  | .bool =>
    match truthOf? (← text) with
    | some b => return .bool b
    | none => throw (.fault .unknownTruth)
  | .int => return .int (← readInt (← text).toList)
  | .float => return .float (← readFloat (← text).toList)
  | .text => return .text (← text)
  | .moment =>
    let text ← text
    match node.body with
    | .scalar _ => return .foreign (.moment (← readMoment text.toList))
    | _ => throw (.fault .momentOfParts)
  | .bytes =>
    let text ← text
    if text.toList.all (·.toNat < 128) && spellsBytes 0 0 text.toList then
      return .foreign (.bytes text)
    else throw (.found "failed to decode base64 data" node.start)
  | _ => refuse

def meet (id : Nat) : Finding Unit := do
  if ((← get).known.getD id none).isSome then return
  match (← nodeAt id).tag with
  | .sequence | .mapping | .set | .pairs =>
    learn id (.list [])
    modify fun s => { s with waiting := id :: s.waiting }
  | _ => learn id (.scalar (← scalarAt id))

/-! Merging: the entries of other mappings stand in front of those of the mapping itself -/

mutual

def mergeInto (id : Nat) : Nat → Finding (List (Nat × Nat))
  | 0 => return []
  | fuel + 1 => do
    let node ← nodeAt id
    match node.body with
    | .mapping pairs =>
      let merges ← pairs.filterM fun pair => return (← nodeAt pair.1).tag == .merge
      let own ← pairs.filterM fun pair => return (← nodeAt pair.1).tag != .merge
      own.forM fun pair => do
        if (← nodeAt pair.1).tag == .default then setNode pair.1 ({ · with tag := .text })
      if merges.isEmpty then return own
      setNode id ({ · with body := .mapping own })
      let merged ← merges.mapM fun pair => mergedFrom node.start pair.2 fuel
      let all := merged.flatten ++ own
      setNode id ({ · with body := .mapping all })
      return all
    | _ => return []
termination_by structural fuel => fuel

/-- The pairs of a mapping, or of a list of mappings of which earlier ones win. -/
def mergedFrom (start : Mark) (id : Nat) : Nat → Finding (List (Nat × Nat))
  | 0 => return []
  | fuel + 1 => do
    let node ← nodeAt id
    match node.body with
    | .mapping _ => mergeInto id fuel
    | .sequence items =>
      let parts ← items.mapM fun item => do
        let part ← nodeAt item
        match part.body with
        | .mapping _ => mergeInto item fuel
        | other =>
          throw (.foundWhile "while constructing a mapping" (some start)
            ("expected a mapping for merging, but found " ++ other.kind) part.start)
      return parts.reverse.flatten
    | .scalar _ =>
      throw (.foundWhile "while constructing a mapping" (some start)
        "expected a mapping or list of mappings for merging, but found scalar" node.start)
termination_by structural fuel => fuel

end

def entryAt (start : Mark) (pair : Nat × Nat) : Finding (Scalar × Nat) := do
  meet pair.1
  match (← get).known.getD pair.1 none with
  | some (.scalar key) =>
    meet pair.2
    return (key, pair.2)
  | _ =>
    throw (.foundWhile "while constructing a mapping" (some start) "found unhashable key"
      (← nodeAt pair.1).start)

def singlePair (start : Mark) (id : Nat) : Finding (Nat × Nat) := do
  let node ← nodeAt id
  let refuse (text : String) : Finding (Nat × Nat) :=
    throw (.foundWhile "while constructing pairs" (some start) text node.start)
  match node.body with
  | .mapping [pair] =>
    meet pair.1
    meet pair.2
    return pair
  | .mapping pairs =>
    refuse ("expected a single mapping item, but found " ++ toString pairs.length ++ " items")
  | other => refuse ("expected a mapping of length 1, but found " ++ other.kind)

def collectionAt (id : Nat) : Finding Meaning := do
  let node ← nodeAt id
  match node.tag, node.body with
  | .sequence, .sequence items =>
    items.forM meet
    return .list items
  | .sequence, other =>
    throw (.found ("expected a sequence node, but found " ++ other.kind) node.start)
  | .pairs, .sequence items => return .pairs (← items.mapM (singlePair node.start))
  | .pairs, other =>
    throw (.foundWhile "while constructing pairs" (some node.start)
      ("expected a sequence, but found " ++ other.kind) node.start)
  | tag, .mapping _ =>
    let pairs ← mergeInto id (2 * (← get).pairCount + 2)
    let entries ← pairs.mapM (entryAt node.start)
    return if tag == .set then .set (entries.map (·.1)) else .object entries
  | _, other => throw (.found ("expected a mapping node, but found " ++ other.kind) node.start)

def readWaiting : Nat → Finding Unit
  | 0 => return
  | fuel + 1 => do
    let waiting := (← get).waiting.reverse
    if waiting.isEmpty then return
    modify ({ · with waiting := [] })
    waiting.forM fun id => do learn id (← collectionAt id)
    readWaiting fuel

def shownSet (keys : List Scalar) : String :=
  let members := keys.foldl (fun all key => Entries.insert all key .null) []
  "\x7b" ++ ", ".intercalate (members.map (·.1.quoted)) ++ "\x7d"

def valueAt (known : Array (Option Meaning)) (path : List Nat) (id : Nat) : Nat → Value
  | 0 => .scalar (.foreign .circle)
  | fuel + 1 =>
    let inner (part : Nat) : Value := valueAt known (id :: path) part fuel
    if path.contains id then .scalar (.foreign .circle)
    else
      match known.getD id none with
      | none => .null
      | some (.scalar value) => .scalar value
      | some (.list items) => .list (items.map inner)
      | some (.pairs entries) =>
        .list (entries.map fun entry => .list [inner entry.1, inner entry.2])
      | some (.object entries) =>
        .object (Entries.insertAll [] (entries.map fun entry => (entry.1, inner entry.2)))
      | some (.set keys) => .scalar (.foreign (.set (shownSet keys)))
termination_by structural fuel => fuel

end Meanings

def valueOf (root : Nat) (nodes : Array Node) : Except Problem Value := do
  let find : Finding Unit := do
    Meanings.meet root
    Meanings.readWaiting (nodes.size + 1)
  let pairCount := nodes.foldl (fun count node => count + node.body.pairCount) 0
  let known := Array.replicate nodes.size none
  let (_, meanings) ← StateT.run find { nodes, pairCount, known }
  return Meanings.valueAt meanings.known [] root (nodes.size + 1)

end TypedClient.Yaml

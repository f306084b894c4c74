import TypedClient.Yaml.Scalar
import TypedClient.Yaml.Token

namespace TypedClient.Yaml

inductive Body
  | scalar (text : String)
  | sequence (items : List Nat)
  | mapping (pairs : List (Nat × Nat))
  deriving DecidableEq, Repr, Inhabited

def Body.kind : Body → String
  | scalar _ => "scalar"
  | sequence _ => "sequence"
  | mapping _ => "mapping"

def Body.pairCount : Body → Nat
  | mapping pairs => pairs.length
  | _ => 0

structure Node where
  tag : Tag
  body : Body
  start : Mark
  deriving Repr, Inhabited

structure Draft where
  tokens : List Token
  nodes : Array Node := #[]
  anchors : List (String × Nat) := []
  /-- What the handles of tags stand for. -/
  handles : List (String × String) := []

abbrev Drafting := StateT Draft (Except Problem)

namespace Draft

def peek : Drafting Token := do
  match (← get).tokens with
  | [] => throw .noValue
  | token :: _ =>
    match token.lexeme with
    | .broken problem => throw problem
    | _ => return token

def take : Drafting Token := do
  let token ← peek
  modify fun draft => { draft with tokens := draft.tokens.drop 1 }
  return token

def addNode (node : Node) : Drafting Nat :=
  modifyGet fun draft => (draft.nodes.size, { draft with nodes := draft.nodes.push node })

def addEmpty (place : Mark) : Drafting Nat := addNode ⟨.null, .scalar "", place⟩

def setBody (id : Nat) (body : Body) : Drafting Unit :=
  modify fun draft => { draft with nodes := draft.nodes.modify id ({ · with body }) }

structure Properties where
  anchor : Option String := none
  tag : Option (TagText × Mark) := none
  start : Option Mark := none

def properties : Drafting Properties := do
  let first ← peek
  match first.lexeme with
  | .anchor name =>
    discard take
    let next ← peek
    match next.lexeme with
    | .tag tag =>
      discard take
      return ⟨some name, some (tag, next.start), some first.start⟩
    | _ => return ⟨some name, none, some first.start⟩
  | .tag tag =>
    discard take
    match (← peek).lexeme with
    | .anchor name =>
      discard take
      return ⟨some name, some (tag, first.start), some first.start⟩
    | _ => return ⟨none, some (tag, first.start), some first.start⟩
  | _ => return {}

def givenTag (properties : Properties) : Drafting (Option Tag) := do
  match properties.tag with
  | none => return none
  | some (tag, place) =>
    let start ← match tag.handle with
      | none => pure ""
      | some handle =>
        match (← get).handles.lookup handle with
        | some meaning => pure meaning
        | none =>
          throw (.foundWhile "while parsing a node" properties.start
            ("found undefined tag handle " ++ quotedName handle) place)
    let name := start ++ tag.suffix
    return if name == "!" then none else some (.ofName name)

def addNamed (anchor : Option String) (node : Node) : Drafting Nat := do
  match anchor with
  | none => addNode node
  | some name =>
    let draft ← get
    match (draft.anchors.lookup name).bind (draft.nodes[·]?) with
    | some other =>
      throw (.foundWhile ("found duplicate anchor " ++ quotedName name ++ "; first occurrence")
        (some other.start) "second occurrence" node.start)
    | none =>
      let id ← addNode node
      modify fun draft => { draft with anchors := (name, id) :: draft.anchors }
      return id

def addCollection (anchor : Option String) (node : Node) (content : Drafting Body) :
    Drafting Nat := do
  let id ← addNamed anchor node
  setBody id (← content)
  return id

def addBare (properties : Properties) (tag : Option Tag) (start : Mark) (inBlock : Bool)
    (next : Token) : Drafting Nat := do
  if properties.start.isNone then
    throw (.foundWhile ("while parsing a " ++ (if inBlock then "block" else "flow") ++ " node")
      (some start) ("expected the node content, but found " ++ next.lexeme.shown) next.start)
  addNamed properties.anchor ⟨tag.getD .null, .scalar "", start⟩

def aliased (name : String) (place : Mark) : Drafting Nat := do
  match (← get).anchors.lookup name with
  | some id => return id
  | none => throw (.found ("found undefined alias " ++ quotedName name) place)

def separator (collection : String) (close : Lexeme) (start : Mark) : Drafting Unit := do
  let token ← peek
  if token.lexeme == .flowEntry then discard take
  else
    throw (.foundWhile ("while parsing a flow " ++ collection) (some start)
      ("expected ',' or '" ++ close.name ++ "', but got " ++ token.lexeme.shown) token.start)

/-- Where a node may stand: in a block, there also without indentation, or between brackets. -/
inductive Place
  | block
  | blockValue
  | flow
  deriving DecidableEq

mutual

def node (place : Place) : Nat → Drafting Nat
  | 0 => throw .noValue
  | fuel + 1 => do
    let first ← peek
    if let .reference name := first.lexeme then
      discard take
      aliased name first.start
    else
      let properties ← properties
      let tag ← givenTag properties
      let next ← peek
      let start := properties.start.getD next.start
      let list : Node := ⟨tag.getD .sequence, .sequence [], start⟩
      let object : Node := ⟨tag.getD .mapping, .mapping [], start⟩
      match next.lexeme, place with
      | .blockEntry, .blockValue =>
        addCollection properties.anchor list (.sequence <$> columnItems fuel)
      | .scalar text plain, _ =>
        discard take
        let kind := if plain || properties.tag.isSome then Tag.ofText text else .text
        addNamed properties.anchor ⟨tag.getD kind, .scalar text, start⟩
      | .flowSequence, _ =>
        addCollection properties.anchor list do
          discard take
          .sequence <$> flowItems next.start true fuel
      | .flowMapping, _ =>
        addCollection properties.anchor object do
          discard take
          .mapping <$> flowPairs next.start true fuel
      | .blockSequence, .block | .blockSequence, .blockValue =>
        addCollection properties.anchor list do
          discard take
          .sequence <$> blockItems next.start fuel
      | .blockMapping, .block | .blockMapping, .blockValue =>
        addCollection properties.anchor object do
          discard take
          .mapping <$> blockPairs next.start fuel
      | _, _ => addBare properties tag start (place != .flow) next
termination_by structural fuel => fuel

def behind (mark : Token) (ends : List Lexeme) (place : Place) : Nat → Drafting Nat
  | 0 => throw .noValue
  | fuel + 1 => do
    if ends.contains (← peek).lexeme then addEmpty mark.stop else node place fuel
termination_by structural fuel => fuel

def pairValue (ends : List Lexeme) (place : Place) : Nat → Drafting Nat
  | 0 => throw .noValue
  | fuel + 1 => do
    let token ← peek
    if token.lexeme == .value then
      discard take
      behind token ends place fuel
    else addEmpty token.start
termination_by structural fuel => fuel

def blockItems (start : Mark) : Nat → Drafting (List Nat)
  | 0 => throw .noValue
  | fuel + 1 => do
    let token ← take
    match token.lexeme with
    | .blockEntry =>
      let item ← behind token [.blockEntry, .blockEnd] .block fuel
      return item :: (← blockItems start fuel)
    | .blockEnd => return []
    | found =>
      throw (.foundWhile "while parsing a block collection" (some start)
        ("expected <block end>, but found " ++ found.shown) token.start)
termination_by structural fuel => fuel

def columnItems : Nat → Drafting (List Nat)
  | 0 => throw .noValue
  | fuel + 1 => do
    let token ← peek
    if token.lexeme == .blockEntry then
      discard take
      let item ← behind token [.blockEntry, .key, .value, .blockEnd] .block fuel
      return item :: (← columnItems fuel)
    else return []
termination_by structural fuel => fuel

def blockPairs (start : Mark) : Nat → Drafting (List (Nat × Nat))
  | 0 => throw .noValue
  | fuel + 1 => do
    let token ← take
    match token.lexeme with
    | .key =>
      let ends : List Lexeme := [.key, .value, .blockEnd]
      let key ← behind token ends .blockValue fuel
      let value ← pairValue ends .blockValue fuel
      return (key, value) :: (← blockPairs start fuel)
    | .blockEnd => return []
    | found =>
      throw (.foundWhile "while parsing a block mapping" (some start)
        ("expected <block end>, but found " ++ found.shown) token.start)
termination_by structural fuel => fuel

def flowItems (start : Mark) (isFirst : Bool) : Nat → Drafting (List Nat)
  | 0 => throw .noValue
  | fuel + 1 => do
    if !isFirst && (← peek).lexeme != .flowSequenceEnd then
      separator "sequence" .flowSequenceEnd start
    let token ← peek
    match token.lexeme with
    | .flowSequenceEnd =>
      discard take
      return []
    | .key =>
      let item ← addCollection none ⟨.mapping, .mapping [], token.start⟩ do
        discard take
        let key ← behind token [.value, .flowEntry, .flowSequenceEnd] .flow fuel
        let value ← pairValue [.flowEntry, .flowSequenceEnd] .flow fuel
        return .mapping [(key, value)]
      return item :: (← flowItems start false fuel)
    | _ =>
      let item ← node .flow fuel
      return item :: (← flowItems start false fuel)
termination_by structural fuel => fuel

def flowPairs (start : Mark) (isFirst : Bool) : Nat → Drafting (List (Nat × Nat))
  | 0 => throw .noValue
  | fuel + 1 => do
    if !isFirst && (← peek).lexeme != .flowMappingEnd then
      separator "mapping" .flowMappingEnd start
    let token ← peek
    match token.lexeme with
    | .flowMappingEnd =>
      discard take
      return []
    | .key =>
      discard take
      let key ← behind token [.value, .flowEntry, .flowMappingEnd] .flow fuel
      let value ← pairValue [.flowEntry, .flowMappingEnd] .flow fuel
      return (key, value) :: (← flowPairs start false fuel)
    | _ =>
      let key ← node .flow fuel
      let value ← addEmpty (← peek).start
      return (key, value) :: (← flowPairs start false fuel)
termination_by structural fuel => fuel

end

def commonHandles : List (String × String) := [("!", "!"), ("!!", Tag.knownStart)]

def directives (versioned : Bool) (handles : List (String × String)) : Nat → Drafting Unit
  | 0 => return
  | fuel + 1 => do
    let token ← peek
    match token.lexeme with
    | .directive directive =>
      discard take
      match directive with
      | .version major =>
        if versioned then throw (.found "found duplicate YAML directive" token.start)
        if major != 1 then
          throw (.found "found incompatible YAML document (version 1.* is required)" token.start)
        directives true handles fuel
      | .tag handle start =>
        if (handles.lookup handle).isSome then
          throw (.found ("duplicate tag handle " ++ quotedName handle) token.start)
        directives versioned ((handle, start) :: handles) fuel
      | .other _ => directives versioned handles fuel
    | _ => modify ({ · with handles := handles ++ commonHandles })

def openDocument (fuel : Nat) : Drafting Unit := do
  directives false [] fuel
  let token ← peek
  if token.lexeme != .documentStart then
    throw (.found ("expected '<document start>', but found " ++ token.lexeme.shown) token.start)
  discard take

def skipEnds : Nat → Drafting Unit
  | 0 => return
  | fuel + 1 => do
    if (← peek).lexeme == .documentEnd then
      discard take
      skipEnds fuel

def closeDocument (root : Nat) (fuel : Nat) : Drafting Unit := do
  skipEnds fuel
  let next ← peek
  if next.lexeme != .streamEnd then
    openDocument fuel
    throw (.foundWhile "expected a single document in the stream"
      (((← get).nodes[root]?).map (·.start)) "but found another document" next.start)

def endsDocument : Lexeme → Bool
  | .directive _ | .documentStart | .documentEnd | .streamEnd => true
  | _ => false

/-- The root of the only document; none if there is no document. -/
def document (fuel : Nat) : Drafting (Option Nat) := do
  match (← peek).lexeme with
  | .streamEnd => return none
  | .directive _ | .documentStart =>
    openDocument fuel
    let next ← peek
    let root ← if endsDocument next.lexeme then addEmpty next.start else node .block fuel
    closeDocument root fuel
    return some root
  | _ =>
    modify ({ · with handles := commonHandles })
    let root ← node .block fuel
    closeDocument root fuel
    return some root

end Draft

/-- The nodes of a document, and the number of its root; none if there is no document. -/
def nodes (tokens : List Token) : Except Problem (Option (Nat × Array Node)) := do
  let (root, draft) ← StateT.run (Draft.document (4 * tokens.length + 4)) { tokens }
  return root.map fun root => (root, draft.nodes)

end TypedClient.Yaml

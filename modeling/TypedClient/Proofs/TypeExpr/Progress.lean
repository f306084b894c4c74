import TypedClient.Proofs.TypeExpr.Spelling

/-!
Reading a type as a run over the positions of fixed tokens. The rules of a run do not say that it
moves on or that it ends; both are proved of them, for all tokens, and then that a run reads what is
read from the tokens that are left.
-/

namespace TypedClient

namespace TypeExpr

section Runs

variable (tokens : List Token)

/-- The name at a position; an empty one where another token stands. -/
inductive NameRun (nested : Bool) (start : Nat) : String → Nat → Prop
  | name {text : String} (here : tokens[start]? = some (.name text)) :
      NameRun nested start (cleanName nested text) (start + 1)
  | missing (other : ∀ text, tokens[start]? ≠ some (.name text)) : NameRun nested start "" start

inductive MarksRun : Nat → Nat → Nat → Prop
  | none {start : Nat} (other : tokens[start]? ≠ some .array) : MarksRun start 0 start
  | mark {start depth stop : Nat} (here : tokens[start]? = some .array)
      (others : MarksRun (start + 1) depth stop) : MarksRun start (depth + 1) stop

mutual

/-- A type: a name, arguments if a bracket opens them, and array marks. -/
inductive TypeRun : Bool → Nat → TypeNode → Nat → Prop
  | bare {nested : Bool} {start behind depth stop : Nat} {name : String}
      (named : NameRun tokens nested start name behind)
      (unopened : tokens[behind]? ≠ some .opening) (marks : MarksRun tokens behind depth stop) :
      TypeRun nested start ⟨name, [], depth⟩ stop
  | applied {nested : Bool} {start behind closed depth stop : Nat} {name : String}
      {args : List TypeNode} (named : NameRun tokens nested start name behind)
      (opened : tokens[behind]? = some .opening) (inner : LoopRun (behind + 1) args closed)
      (marks : MarksRun tokens closed depth stop) : TypeRun nested start ⟨name, args, depth⟩ stop

/-- The loop over arguments: rounds up to a closing bracket or the end of the tokens. -/
inductive LoopRun : Nat → List TypeNode → Nat → Prop
  | ended {start : Nat} (ended : tokens[start]? = none) : LoopRun start [] start
  | closed {start : Nat} (closing : tokens[start]? = some .closing) :
      LoopRun start [] (start + 1)
  | round {start next stop : Nat} {read args : List TypeNode} (first : RoundRun start read next)
      (others : LoopRun next args stop) : LoopRun start (read ++ args) stop

/-- One round of the loop: a comma is passed over, anything else begins an argument. -/
inductive RoundRun : Nat → List TypeNode → Nat → Prop
  | comma {start : Nat} (comma : tokens[start]? = some .comma) : RoundRun start [] (start + 1)
  | argument {start next : Nat} {token : Token} {node : TypeNode}
      (here : tokens[start]? = some token) (unclosed : token ≠ .closing) (apart : token ≠ .comma)
      (inner : TypeRun true start node next) : RoundRun start [node] next

end

end Runs

section Moves

variable {tokens : List Token}

/-- From a position to the same or a later one, at most to the end of the tokens. -/
structure Moves (tokens : List Token) (start stop : Nat) : Prop where
  forward : start ≤ stop
  bounded : stop ≤ max start tokens.length

theorem Moves.trans {start between stop : Nat} (first : Moves tokens start between)
    (second : Moves tokens between stop) : Moves tokens start stop := by
  obtain ⟨forward, bounded⟩ := first
  obtain ⟨onwards, limited⟩ := second
  exact ⟨by omega, by omega⟩

theorem Moves.stay (start : Nat) : Moves tokens start start :=
  ⟨Nat.le_refl start, Nat.le_max_left _ _⟩

theorem Moves.step {start : Nat} {token : Token} (here : tokens[start]? = some token) :
    Moves tokens start (start + 1) := by
  obtain ⟨inside, -⟩ := List.getElem?_eq_some_iff.mp here
  exact ⟨by omega, by omega⟩

theorem NameRun.moves {nested : Bool} {start next : Nat} {name : String}
    (run : NameRun tokens nested start name next) : Moves tokens start next := by
  cases run with
  | name here => exact .step here
  | missing => exact .stay start

theorem MarksRun.moves {start depth stop : Nat} (run : MarksRun tokens start depth stop) :
    Moves tokens start stop := by
  induction run with
  | none => exact .stay _
  | mark here _ ih => exact (Moves.step here).trans ih

def Consumes (tokens : List Token) (start stop : Nat) : Prop :=
  ∀ token, tokens[start]? = some token → token ≠ .closing → token ≠ .comma → start < stop

/-- Without arguments a name is consumed or, where there is none, an array mark. -/
theorem consumes_bare {nested : Bool} {start behind depth stop : Nat} {name : String}
    (named : NameRun tokens nested start name behind) (unopened : tokens[behind]? ≠ some .opening)
    (marks : MarksRun tokens behind depth stop) : Consumes tokens start stop := by
  intro token here unclosed apart
  have onwards := marks.moves.forward
  cases named with
  | name => omega
  | missing other =>
      -- without a name and a bracket the token is an array mark
      cases token with
      | name text => exact absurd here (other text)
      | opening => exact absurd here unopened
      | closing => exact absurd rfl unclosed
      | comma => exact absurd rfl apart
      | array =>
          cases marks with
          | none unmarked => exact absurd here unmarked
          | mark _ others =>
              have := others.moves.forward
              omega

mutual

theorem TypeRun.moves {nested : Bool} {start stop : Nat} {node : TypeNode}
    (run : TypeRun tokens nested start node stop) :
    Moves tokens start stop ∧ Consumes tokens start stop := by
  match run with
  | .bare named unopened marks =>
      exact ⟨named.moves.trans marks.moves, consumes_bare named unopened marks⟩
  | .applied named opened inner marks =>
      have loop := inner.moves
      refine ⟨((named.moves.trans (.step opened)).trans loop).trans marks.moves, ?_⟩
      intro token _ _ _
      have before := named.moves.forward
      have inside := loop.forward
      have onwards := marks.moves.forward
      omega

theorem LoopRun.moves {start stop : Nat} {args : List TypeNode}
    (run : LoopRun tokens start args stop) : Moves tokens start stop := by
  match run with
  | .ended _ => exact .stay _
  | .closed closing => exact .step closing
  | .round first others => exact first.moves.1.trans others.moves

theorem RoundRun.moves {start next : Nat} {read : List TypeNode}
    (run : RoundRun tokens start read next) :
    Moves tokens start next ∧ start < next := by
  match run with
  | .comma comma => exact ⟨.step comma, Nat.lt_succ_self _⟩
  | .argument here unclosed apart inner =>
      obtain ⟨moves, consumes⟩ := inner.moves
      exact ⟨moves, consumes _ here unclosed apart⟩

end

end Moves

section Ends

variable {tokens : List Token}

theorem exists_nameRun (tokens : List Token) (nested : Bool) (start : Nat) :
    ∃ name behind, NameRun tokens nested start name behind := by
  by_cases given : ∃ text, tokens[start]? = some (.name text)
  · obtain ⟨text, here⟩ := given
    exact ⟨_, _, .name here⟩
  · exact ⟨_, _, .missing fun text here => given ⟨text, here⟩⟩

theorem exists_marksRun (tokens : List Token) (start : Nat) :
    ∃ depth stop, MarksRun tokens start depth stop := by
  by_cases marked : tokens[start]? = some .array
  · have inside := (List.getElem?_eq_some_iff.mp marked).1
    obtain ⟨depth, stop, others⟩ := exists_marksRun tokens (start + 1)
    exact ⟨_, _, .mark marked others⟩
  · exact ⟨_, _, .none marked⟩
termination_by tokens.length - start

theorem exists_typeRun {start : Nat} (nested : Bool)
    (loops : ∀ later, start < later → ∃ args stop, LoopRun tokens later args stop) :
    ∃ node stop, TypeRun tokens nested start node stop := by
  obtain ⟨name, behind, named⟩ := exists_nameRun tokens nested start
  by_cases opened : tokens[behind]? = some .opening
  · obtain ⟨args, closed, inner⟩ := loops (behind + 1) (Nat.lt_succ_of_le named.moves.forward)
    obtain ⟨depth, stop, marks⟩ := exists_marksRun tokens closed
    exact ⟨_, _, .applied named opened inner marks⟩
  · obtain ⟨depth, stop, marks⟩ := exists_marksRun tokens behind
    exact ⟨_, _, .bare named opened marks⟩

/-- The loop over arguments ends wherever it begins, because every round leaves fewer tokens. -/
theorem exists_loopRun (tokens : List Token) (start : Nat) :
    ∃ args stop, LoopRun tokens start args stop := by
  induction left : tokens.length - start using Nat.strong_induction_on generalizing start with
  | _ n fewer =>
      subst left
      have later {next : Nat} (inside : start < tokens.length) (onwards : start < next) :
          ∃ args stop, LoopRun tokens next args stop :=
        fewer _ (by omega) next rfl
      cases here : tokens[start]? with
      | none => exact ⟨_, _, .ended here⟩
      | some token =>
          have inside := (List.getElem?_eq_some_iff.mp here).1
          have round (apart : token ≠ .closing) : ∃ read next, RoundRun tokens start read next := by
            by_cases comma : token = .comma
            · subst comma
              exact ⟨_, _, .comma here⟩
            · obtain ⟨node, next, inner⟩ := exists_typeRun true fun _ => later inside
              exact ⟨_, _, .argument here apart comma inner⟩
          by_cases closing : token = .closing
          · subst closing
            exact ⟨_, _, .closed here⟩
          · obtain ⟨read, next, first⟩ := round closing
            obtain ⟨args, stop, others⟩ := later inside first.moves.2
            exact ⟨_, _, .round first others⟩

end Ends

section Reads

variable {tokens : List Token}

theorem drop_of_here {start : Nat} {token : Token} (here : tokens[start]? = some token) :
    tokens.drop start = token :: tokens.drop (start + 1) := by
  rw [List.drop_eq_getElem?_toList_append, here]
  rfl

theorem drop_ne_cons {start : Nat} {token : Token} (other : tokens[start]? ≠ some token)
    (rest : List Token) :
    tokens.drop start ≠ token :: rest := by
  intro same
  rw [← List.head?_drop, same] at other
  exact other rfl

theorem NameRun.reads {nested : Bool} {start next : Nat} {name : String}
    (run : NameRun tokens nested start name next) :
    splitName nested (tokens.drop start) = (name, tokens.drop next) := by
  cases run with
  | name here => rw [drop_of_here here, splitName]
  | missing other =>
      unfold splitName
      split
      · rename_i text rest same
        exact absurd same (drop_ne_cons (other text) rest)
      · rfl

theorem MarksRun.reads {start depth stop : Nat} (run : MarksRun tokens start depth stop) :
    countArrays (tokens.drop start) = depth ∧
      dropArrays (tokens.drop start) = tokens.drop stop := by
  induction run with
  | @none start other =>
      constructor
      · unfold countArrays
        split
        · rename_i rest same
          exact absurd same (drop_ne_cons other rest)
        · rfl
      · unfold dropArrays
        split
        · rename_i rest same
          exact absurd same (drop_ne_cons other rest)
        · rfl
  | mark here _ ih =>
      rw [drop_of_here here, countArrays, dropArrays, ih.1]
      exact ⟨rfl, ih.2⟩

theorem readArgs_argument {token : Token} (unclosed : token ≠ .closing) (apart : token ≠ .comma)
    (rest : List Token) :
    (readArgs (token :: rest)).1 = (readNode true (token :: rest)).1 ::
        (readArgs (readNode true (token :: rest)).2).1 ∧
      (readArgs (token :: rest)).2.1 = (readArgs (readNode true (token :: rest)).2).2.1 := by
  cases token with
  | name text => exact readArgs_name text rest
  | opening =>
      rw [readArgs]
      exact ⟨rfl, rfl⟩
  | array =>
      rw [readArgs]
      exact ⟨rfl, rfl⟩
  | closing => exact absurd rfl unclosed
  | comma => exact absurd rfl apart

mutual

theorem TypeRun.reads {nested : Bool} {start stop : Nat} {node : TypeNode}
    (run : TypeRun tokens nested start node stop) :
    readNode nested (tokens.drop start) = (node, tokens.drop stop) := by
  match run with
  | .bare named unopened marks =>
      obtain ⟨count, behind⟩ := marks.reads
      rw [readNode, named.reads]
      dsimp only
      split
      · rename_i inner same
        exact absurd same (drop_ne_cons unopened inner)
      · rw [count, behind]
  | .applied named opened inner marks =>
      obtain ⟨own, left⟩ := inner.reads
      obtain ⟨count, behind⟩ := marks.reads
      rw [readNode, named.reads, drop_of_here opened]
      dsimp only
      rw [own, left, count, behind]

theorem LoopRun.reads {start stop : Nat} {args : List TypeNode}
    (run : LoopRun tokens start args stop) :
    (readArgs (tokens.drop start)).1 = args ∧
      (readArgs (tokens.drop start)).2.1 = tokens.drop stop := by
  match run with
  | .ended ended =>
      rw [List.drop_eq_nil_of_le (List.getElem?_eq_none_iff.mp ended), readArgs]
      exact ⟨rfl, rfl⟩
  | .closed closing =>
      rw [drop_of_here closing, readArgs]
      exact ⟨rfl, rfl⟩
  | .round first others =>
      obtain ⟨own, left⟩ := others.reads
      obtain ⟨whole, behind⟩ := first.reads
      rw [whole, behind, own, left]
      exact ⟨rfl, rfl⟩

theorem RoundRun.reads {start next : Nat} {read : List TypeNode}
    (run : RoundRun tokens start read next) :
    (readArgs (tokens.drop start)).1 = read ++ (readArgs (tokens.drop next)).1 ∧
      (readArgs (tokens.drop start)).2.1 = (readArgs (tokens.drop next)).2.1 := by
  match run with
  | .comma comma =>
      rw [drop_of_here comma, readArgs]
      exact ⟨rfl, rfl⟩
  | .argument here unclosed apart inner =>
      have own := inner.reads
      rw [drop_of_here here] at own ⊢
      obtain ⟨whole, behind⟩ := readArgs_argument unclosed apart (tokens.drop (_ + 1))
      rw [whole, behind, own]
      exact ⟨rfl, rfl⟩

end

/-- Two runs over a type from one position read the same and end at the same place. -/
theorem TypeRun.unique {nested : Bool} {start stop last : Nat} {node other : TypeNode}
    (run : TypeRun tokens nested start node stop) (run' : TypeRun tokens nested start other last) :
    other = node ∧ last = stop := by
  have same := run'.reads.symm.trans run.reads
  rw [Prod.mk.injEq] at same
  obtain ⟨nodes, rests⟩ := same
  have left := congrArg List.length rests
  rw [List.length_drop, List.length_drop] at left
  obtain ⟨⟨forward, bounded⟩, -⟩ := run.moves
  obtain ⟨⟨forward', bounded'⟩, -⟩ := run'.moves
  exact ⟨nodes, by omega⟩

/-- A run that leaves no tokens ends behind the last one. -/
theorem TypeRun.ends {nested : Bool} {start stop : Nat} {node : TypeNode}
    (run : TypeRun tokens nested start node stop) (inside : start ≤ tokens.length)
    (none : (readNode nested (tokens.drop start)).2 = []) : stop = tokens.length := by
  rw [run.reads, List.drop_eq_nil_iff] at none
  obtain ⟨⟨forward, bounded⟩, -⟩ := run.moves
  omega

end Reads

end TypeExpr

namespace TypeNode

open TypeExpr

mutual

/-- The tokens of a type expression: a name, its arguments and array marks. -/
def phrase : TypeNode → List Token
  | ⟨name, args, depth⟩ => .name name :: (bracketed args ++ List.replicate depth .array)
termination_by structural node => node

def bracketed : List TypeNode → List Token
  | [] => []
  | node :: rest => .opening :: (phrase node ++ further rest) ++ [.closing]
termination_by structural nodes => nodes

def further : List TypeNode → List Token
  | [] => []
  | node :: rest => .comma :: (phrase node ++ further rest)
termination_by structural nodes => nodes

end

end TypeNode

namespace TypeExpr

section Phrases

mutual

theorem reads_phrase (node : TypeNode) (nested : Bool) :
    ∃ tree, ∀ more, Ends more → readNode nested (node.phrase ++ more) = (tree, more) := by
  match node with
  | ⟨name, args, depth⟩ =>
      obtain ⟨read, reads⟩ := reads_bracketed args
      refine ⟨⟨cleanName nested name, read, depth⟩, fun more ends => ?_⟩
      rw [TypeNode.phrase, List.cons_append, List.append_assoc]
      exact reads nested name depth more ends

theorem reads_bracketed (args : List TypeNode) :
    ∃ read, ReadsArguments (TypeNode.bracketed args) read := by
  match args with
  | [] => exact ⟨[], readsArguments_nil⟩
  | ⟨name, inner, depth⟩ :: rest =>
      obtain ⟨tree, first⟩ := reads_phrase ⟨name, inner, depth⟩ true
      obtain ⟨apart, read, others⟩ := reads_further rest
      exact ⟨tree :: read, (ReadsAll.cons first others apart).brackets⟩

theorem reads_further (args : List TypeNode) :
    (∀ tail, Ends (TypeNode.further args ++ .closing :: tail)) ∧
      ∃ read, ReadsAll (TypeNode.further args) read := by
  match args with
  | [] => exact ⟨fun _ => trivial, [], readsAll_nil⟩
  | ⟨name, inner, depth⟩ :: rest =>
      obtain ⟨tree, first⟩ := reads_phrase ⟨name, inner, depth⟩ true
      obtain ⟨apart, read, others⟩ := reads_further rest
      exact ⟨fun _ => trivial, tree :: read, (ReadsAll.cons first others apart).comma⟩

end

theorem tokens_of_spells {node : TypeNode} {text : List Char} (spelled : Spells node text)
    (bare : node.Bare) : (readNode false (tokens (String.ofList text))).2 = [] := by
  obtain ⟨name, tokens, lexes, reads⟩ := spelled.reads bare
  have whole := lexes [] .nil
  have ended := reads false [] trivial
  rw [tokensFrom, nameToken_nil, List.append_nil, List.append_nil] at whole
  rw [List.append_nil] at ended
  rw [TypeExpr.tokens, String.toList_ofList, whole, ended]

end Phrases

/-- Reading a type ends on all tokens and from every position, with one result: it stays inside of
the tokens, and moves on from any token but a closing bracket and a comma. So does every round of a
loop over arguments, wherever it begins. Every text is read to a tree, and every type expression to
its end, whether it is given by its tokens or by one of its spellings. -/
theorem reading_moves_on :
    (∀ tokens nested start, ∃ node stop, TypeRun tokens nested start node stop ∧
      (∀ other last, TypeRun tokens nested start other last → other = node ∧ last = stop) ∧
      readNode nested (tokens.drop start) = (node, tokens.drop stop) ∧
      start ≤ stop ∧ (start ≤ tokens.length → stop ≤ tokens.length) ∧
      ∀ token, tokens[start]? = some token → token ≠ .closing → token ≠ .comma → start < stop) ∧
    (∀ tokens start, (∃ args stop, LoopRun tokens start args stop) ∧
      ∀ read next, RoundRun tokens start read next → start < next ∧ next ≤ tokens.length) ∧
    (∀ text, ∃ stop, TypeRun (tokens text) false 0 (TypeNode.parse text) stop) ∧
    (∀ node : TypeNode, ∃ tree, TypeRun node.phrase false 0 tree node.phrase.length) ∧
    ∀ node text, Spells node text → node.Bare →
      TypeRun (tokens (String.ofList text)) false 0 (TypeNode.parse (String.ofList text))
        (tokens (String.ofList text)).length := by
  have started (tokens : List Token) (nested : Bool) (start : Nat) :
      ∃ node stop, TypeRun tokens nested start node stop :=
    exists_typeRun nested fun later _ => exists_loopRun tokens later
  have parsed (text : String) :
      ∃ stop, TypeRun (tokens text) false 0 (TypeNode.parse text) stop := by
    obtain ⟨node, stop, run⟩ := started (tokens text) false 0
    have read := run.reads
    rw [List.drop_zero] at read
    rw [TypeNode.parse, read]
    exact ⟨stop, run⟩
  refine ⟨fun tokens nested start => ?_, fun tokens start => ⟨exists_loopRun tokens start, ?_⟩,
    parsed, fun node => ?_, fun node text spelled bare => ?_⟩
  · obtain ⟨node, stop, run⟩ := started tokens nested start
    obtain ⟨⟨forward, bounded⟩, consumes⟩ := run.moves
    exact ⟨node, stop, run, fun _ _ => run.unique, run.reads, forward, fun _ => by omega, consumes⟩
  · intro read next round
    obtain ⟨⟨-, bounded⟩, onwards⟩ := round.moves
    exact ⟨onwards, by omega⟩
  · obtain ⟨tree, stop, run⟩ := started node.phrase false 0
    obtain ⟨read, reads⟩ := reads_phrase node false
    have whole := reads [] trivial
    rw [List.append_nil] at whole
    rw [← run.ends (Nat.zero_le _) (by rw [List.drop_zero, whole])]
    exact ⟨tree, run⟩
  · obtain ⟨stop, run⟩ := parsed (String.ofList text)
    rw [← run.ends (Nat.zero_le _) (tokens_of_spells spelled bare)]
    exact run

/-- Brackets that are not closed, and a mark without a name, are read as well. -/
theorem reading_moves_on_page :
    (∃ node stop, TypeRun (tokens "Page<<[],User") false 0 node stop ∧ 0 < stop ∧ stop ≤ 6) ∧
      TypeRun (tokens " com.example.Page «User [], it.Item<Id>» []") false 0 pageOfItems 11 := by
  obtain ⟨runs, -, -, -, spelled⟩ := reading_moves_on
  constructor
  · obtain ⟨node, stop, run, -, -, -, inside, consumes⟩ := runs (tokens "Page<<[],User") false 0
    have six : (tokens "Page<<[],User").length = 6 := by decide
    have bounded := inside (Nat.zero_le _)
    rw [six] at bounded
    exact ⟨node, stop, run, consumes (.name "Page") (by decide) (by decide) (by decide), bounded⟩
  · have read := spelled pageOfItems _ spells_pageOfItems settled_pageOfItems.bare
    rwa [parse_of_spells spells_pageOfItems settled_pageOfItems, String.ofList_toList] at read

end TypeExpr

end TypedClient

import TypedClient.Proofs.Json.RoundTrip

namespace TypedClient

theorem toNat_of_isDigit {c : Char} (digit : c.isDigit = true) : 48 ≤ c.toNat ∧ c.toNat ≤ 57 := by
  simp only [Char.isDigit, Bool.and_eq_true, decide_eq_true_eq] at digit
  exact ⟨digit.1, digit.2⟩

theorem readDigits_lt {digits : List Char} (all : ∀ c ∈ digits, c.isDigit = true) :
    readDigits digits < 10 ^ digits.length := by
  induction digits using List.reverseRecOn with
  | nil => decide
  | append_singleton front c ih =>
      have bounds := toNat_of_isDigit (all c (by simp))
      have less := ih fun d member => all d (by simp [member])
      have single : readDigits [c] = c.toNat - 48 := by simp [readDigits]
      rw [readDigits_append, single, List.length_append, List.length_singleton, Nat.pow_succ]
      omega

namespace Json

theorem spellable_of_readBehind? {negative : Bool} {whole tail : List Char} {s : Scalar}
    (digits : ∀ c ∈ whole, c.isDigit = true) (found : readBehind? negative whole tail = some s) :
    s.Spellable := by
  unfold readBehind? at found
  split at found
  · split at found
    · cases found
    · rename_i short
      rw [← Option.some.inj found]
      have size : (if negative = true then -(readDigits whole : Int)
          else readDigits whole).natAbs = readDigits whole := by
        split <;> omega
      have bound := Nat.pow_le_pow_right (n := 10) (by decide) (not_lt.mp short)
      exact size.trans_lt ((readDigits_lt digits).trans_le bound)
  · dsimp only at found
    split at found
    · cases found
    · obtain ⟨exponent, -, made⟩ := Option.map_eq_some_iff.mp found
      rw [← made]
      exact Binary64.canonical_ofDecimal _ _ _
  · obtain ⟨exponent, -, made⟩ := Option.map_eq_some_iff.mp found
    rw [← made]
    exact Binary64.canonical_ofDecimal _ _ _

theorem spellable_of_readNumber? {text : List Char} {s : Scalar}
    (found : readNumber? text = some s) : s.Spellable := by
  obtain ⟨negative, body, -, -, read⟩ := readNumber?_eq text
  rw [read] at found
  unfold readMagnitude? at found
  dsimp only at found
  split at found
  · cases found
  · exact spellable_of_readBehind? (fun c member => List.mem_takeWhile_imp member) found

theorem spellable_of_readAtom? {text : List Char} {s : Scalar}
    (found : readAtom? text = some s) : s.Spellable := by
  unfold readAtom? at found
  split at found
  all_goals first
    | exact spellable_of_readNumber? found
    | (rw [← Option.some.inj found]; trivial)

def Token.Spellable : Token → Prop
  | atom value => value.Spellable
  | _ => True

def AllSpellable (tokens : List Token) : Prop := ∀ token ∈ tokens, token.Spellable

@[simp] theorem allSpellable_nil : AllSpellable [] := List.forall_mem_nil _

@[simp] theorem allSpellable_cons {token : Token} {tokens : List Token} :
    AllSpellable (token :: tokens) ↔ token.Spellable ∧ AllSpellable tokens :=
  List.forall_mem_cons

theorem allSpellable_append {first second : List Token} :
    AllSpellable (first ++ second) ↔ AllSpellable first ∧ AllSpellable second :=
  List.forall_mem_append

theorem spellable_of_enter {c : Char} {tokens : List Token} {mode : Mode}
    (entered : enter c = some (tokens, mode)) : AllSpellable tokens := by
  have structural {token : Token} (given : structural? c = some token) : token.Spellable := by
    unfold structural? at given
    split at given <;> cases given <;> trivial
  unfold enter at entered
  split at entered
  · rename_i token given
    rw [← (Prod.mk.inj (Option.some.inj entered)).1]
    simpa using structural given
  · have none : tokens = [] := by
      split at entered
      · exact (Prod.mk.inj (Option.some.inj entered)).1.symm
      · split at entered
        · exact (Prod.mk.inj (Option.some.inj entered)).1.symm
        · split at entered
          · exact (Prod.mk.inj (Option.some.inj entered)).1.symm
          · cases entered
    simp [none]

theorem spellable_of_step {mode after : Mode} {c : Char} {tokens : List Token}
    (stepped : step mode c = some (tokens, after)) : AllSpellable tokens := by
  have silent (empty : tokens = []) : AllSpellable tokens := by simp [empty]
  cases mode with
  | between => exact spellable_of_enter stepped
  | word read =>
      rw [step] at stepped
      split at stepped
      · exact silent (Prod.mk.inj (Option.some.inj stepped)).1.symm
      · obtain ⟨value, found, stepped⟩ := Option.bind_eq_some_iff.mp stepped
        obtain ⟨entered, given, made⟩ := Option.bind_eq_some_iff.mp stepped
        rw [← (Prod.mk.inj (Option.some.inj made)).1]
        exact allSpellable_cons.mpr ⟨spellable_of_readAtom? found, spellable_of_enter given⟩
  | quotes units =>
      rw [step] at stepped
      split at stepped
      · rw [← (Prod.mk.inj (Option.some.inj stepped)).1]
        simp [Token.Spellable, Scalar.Spellable]
      · split at stepped
        · exact silent (Prod.mk.inj (Option.some.inj stepped)).1.symm
        · split at stepped
          · cases stepped
          · exact silent (Prod.mk.inj (Option.some.inj stepped)).1.symm
  | escape units =>
      rw [step] at stepped
      split at stepped
      · exact silent (Prod.mk.inj (Option.some.inj stepped)).1.symm
      · obtain ⟨meant, -, made⟩ := Option.map_eq_some_iff.mp stepped
        exact silent (Prod.mk.inj made).1.symm
  | code units left value =>
      obtain ⟨digit, -, made⟩ := Option.bind_eq_some_iff.mp stepped
      exact silent (Prod.mk.inj (Option.some.inj made)).1.symm

theorem spellable_of_tokensFrom {mode : Mode} {text : List Char} {tokens : List Token}
    (found : tokensFrom mode text = some tokens) : AllSpellable tokens := by
  induction text generalizing mode tokens with
  | nil =>
      rw [tokensFrom] at found
      unfold finish at found
      split at found
      · simp [← Option.some.inj found]
      · obtain ⟨value, read, rfl⟩ := Option.map_eq_some_iff.mp found
        simpa [Token.Spellable] using spellable_of_readAtom? read
      · cases found
  | cons c rest ih =>
      obtain ⟨stepped, given, found⟩ := Option.bind_eq_some_iff.mp found
      obtain ⟨more, later, made⟩ := Option.bind_eq_some_iff.mp found
      rw [← Option.some.inj made]
      exact allSpellable_append.mpr ⟨spellable_of_step given, ih later⟩

section Readers

variable {tokens : List Token} {rest : Rest tokens}

theorem readValue_cases {value : Value} (found : readValue tokens = some (value, rest)) :
    (∃ s, tokens = .atom s :: rest.1 ∧ value = .scalar s) ∨
    (tokens = .openList :: .closeList :: rest.1 ∧ value = .list []) ∨
    (tokens = .openObject :: .closeObject :: rest.1 ∧ value = .object []) ∨
    (∃ inner items, ∃ left : Rest inner, tokens = .openList :: inner ∧
      readItems inner = some (items, left) ∧ left.1 = rest.1 ∧ value = .list items) ∨
    ∃ inner entries, ∃ left : Rest inner, tokens = .openObject :: inner ∧
      readEntries inner = some (entries, left) ∧ left.1 = rest.1 ∧
        value = .object (Entries.insertAll [] entries) := by
  unfold readValue at found
  split at found
  · cases found
    exact .inl ⟨_, rfl, rfl⟩
  · cases found
    exact .inr (.inl ⟨rfl, rfl⟩)
  · cases found
    exact .inr (.inr (.inl ⟨rfl, rfl⟩))
  · split at found
    · rename_i read
      cases found
      exact .inr (.inr (.inr (.inl ⟨_, _, _, rfl, read, rfl, rfl⟩)))
    · cases found
  · split at found
    · rename_i read
      cases found
      exact .inr (.inr (.inr (.inr ⟨_, _, _, rfl, read, rfl, rfl⟩)))
    · cases found
  · cases found

/-- What the items of a list are read from: the last one, or one with more behind it. -/
theorem readItems_cases {items : List Value} (found : readItems tokens = some (items, rest)) :
    ∃ item, ∃ behind : Rest tokens, readValue tokens = some (item, behind) ∧
      ((behind.1 = .closeList :: rest.1 ∧ items = [item]) ∨
        ∃ next more, ∃ left : Rest next, behind.1 = .comma :: next ∧
          readItems next = some (more, left) ∧ left.1 = rest.1 ∧ items = item :: more) := by
  unfold readItems at found
  split at found
  · rename_i read
    cases found
    exact ⟨_, _, read, .inl ⟨rfl, rfl⟩⟩
  · rename_i read
    split at found
    · rename_i later
      cases found
      exact ⟨_, _, read, .inr ⟨_, _, _, rfl, later, rfl, rfl⟩⟩
    · cases found
  · cases found

/-- What the entries of an object are read from: the last one, or one with more behind it. -/
theorem readEntries_cases {entries : Entries} (found : readEntries tokens = some (entries, rest)) :
    ∃ key tail value, ∃ behind : Rest tail, tokens = .atom (.text key) :: .colon :: tail ∧
      readValue tail = some (value, behind) ∧
      ((behind.1 = .closeObject :: rest.1 ∧ entries = [(.text key, value)]) ∨
        ∃ next more, ∃ left : Rest next, behind.1 = .comma :: next ∧
          readEntries next = some (more, left) ∧ left.1 = rest.1 ∧
            entries = (.text key, value) :: more) := by
  unfold readEntries at found
  split at found
  · split at found
    · rename_i read
      cases found
      exact ⟨_, _, _, _, rfl, read, .inl ⟨rfl, rfl⟩⟩
    · rename_i read
      split at found
      · rename_i later
        cases found
        exact ⟨_, _, _, _, rfl, read, .inr ⟨_, _, _, rfl, later, rfl, rfl⟩⟩
      · cases found
    · cases found
  · cases found

end Readers

mutual

/-- What is read from the front of tokens, and what is left of them, can be spelled. -/
theorem spellable_of_readValue {tokens : List Token} {value : Value} {rest : Rest tokens}
    (spellable : AllSpellable tokens) (found : readValue tokens = some (value, rest)) :
    value.Spellable ∧ AllSpellable rest.1 := by
  rcases readValue_cases found with ⟨s, shape, rfl⟩ | ⟨shape, rfl⟩ | ⟨shape, rfl⟩ |
    ⟨inner, items, left, rfl, read, same, rfl⟩ | ⟨inner, entries, left, rfl, read, same, rfl⟩
  · rw [shape, allSpellable_cons] at spellable
    exact ⟨.scalar spellable.1, spellable.2⟩
  · rw [shape, allSpellable_cons, allSpellable_cons] at spellable
    exact ⟨.list (by simp), spellable.2.2⟩
  · rw [shape, allSpellable_cons, allSpellable_cons] at spellable
    exact ⟨.object .nil (by simp) (by simp), spellable.2.2⟩
  · obtain ⟨each, behind⟩ := spellable_of_readItems (allSpellable_cons.mp spellable).2 read
    exact ⟨.list each, same ▸ behind⟩
  · obtain ⟨each, behind⟩ := spellable_of_readEntries (allSpellable_cons.mp spellable).2 read
    have all := @Entries.forall_insertAll [] entries (fun key => ∃ name, key = .text name)
      Value.Spellable (by simp) each
    exact ⟨.object (Entries.distinct_insertAll .nil _) (fun entry member => (all entry member).1)
      fun entry member => (all entry member).2, same ▸ behind⟩
termination_by (tokens.length, 0)

theorem spellable_of_readItems {tokens : List Token} {items : List Value} {rest : Rest tokens}
    (spellable : AllSpellable tokens) (found : readItems tokens = some (items, rest)) :
    (∀ item ∈ items, item.Spellable) ∧ AllSpellable rest.1 := by
  obtain ⟨item, behind, read, cases⟩ := readItems_cases found
  obtain ⟨own, follows⟩ := spellable_of_readValue spellable read
  rcases cases with ⟨closed, rfl⟩ | ⟨next, more, left, comma, later, same, rfl⟩
  · rw [closed, allSpellable_cons] at follows
    exact ⟨List.forall_mem_singleton.mpr own, follows.2⟩
  · have shorter : next.length < tokens.length := by
      have below := behind.2
      rw [comma, List.length_cons] at below
      omega
    rw [comma, allSpellable_cons] at follows
    obtain ⟨each, final⟩ := spellable_of_readItems follows.2 later
    exact ⟨List.forall_mem_cons.mpr ⟨own, each⟩, same ▸ final⟩
termination_by (tokens.length, 1)

theorem spellable_of_readEntries {tokens : List Token} {entries : Entries} {rest : Rest tokens}
    (spellable : AllSpellable tokens) (found : readEntries tokens = some (entries, rest)) :
    (∀ entry ∈ entries, (∃ name, entry.1 = .text name) ∧ entry.2.Spellable) ∧
      AllSpellable rest.1 := by
  obtain ⟨key, tail, value, behind, shape, read, cases⟩ := readEntries_cases found
  rw [shape, allSpellable_cons, allSpellable_cons] at spellable
  have less : tail.length < tokens.length := by
    rw [shape, List.length_cons, List.length_cons]
    omega
  obtain ⟨own, follows⟩ := spellable_of_readValue spellable.2.2 read
  rcases cases with ⟨closed, rfl⟩ | ⟨next, more, left, comma, later, same, rfl⟩
  · rw [closed, allSpellable_cons] at follows
    exact ⟨List.forall_mem_singleton.mpr ⟨⟨key, rfl⟩, own⟩, follows.2⟩
  · have shorter : next.length < tokens.length := by
      have below := behind.2
      rw [comma, List.length_cons] at below
      omega
    rw [comma, allSpellable_cons] at follows
    obtain ⟨each, final⟩ := spellable_of_readEntries follows.2 later
    exact ⟨List.forall_mem_cons.mpr ⟨⟨⟨key, rfl⟩, own⟩, each⟩, same ▸ final⟩
termination_by (tokens.length, 1)

end

/-- Whatever is read can be written again. -/
theorem spellable_of_read {text : String} {value : Value} (found : read text = some value) :
    value.Spellable := by
  obtain ⟨own, scanned, found⟩ := Option.bind_eq_some_iff.mp found
  split at found
  · rename_i spelled shorter read
    cases found
    exact (spellable_of_readValue (spellable_of_tokensFrom scanned) read).1
  · cases found

end Json

end TypedClient

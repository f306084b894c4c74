import TypedClient.Json.Reader
import TypedClient.Proofs.Json.Scan
import TypedClient.Proofs.Value.Entries

namespace TypedClient

def Scalar.Spellable : Scalar → Prop
  | .int n => n.natAbs < 10 ^ digitLimit
  | .float x => x.Canonical
  | .foreign _ => False
  | _ => True

inductive Value.Spellable : Value → Prop
  | scalar {s : Scalar} (own : s.Spellable) : Spellable (.scalar s)
  | list {items : List Value} (each : ∀ item ∈ items, Spellable item) : Spellable (.list items)
  | object {entries : Entries} (distinct : entries.Distinct)
      (named : ∀ entry ∈ entries, ∃ name, entry.1 = .text name)
      (each : ∀ entry ∈ entries, Spellable entry.2) : Spellable (.object entries)

namespace Json

mutual

def tokensOf : Value → List Token
  | .scalar s => [.atom s]
  | .list items => .openList :: [Token.comma].intercalate (tokensOfItems items) ++ [.closeList]
  | .object entries =>
    .openObject :: [Token.comma].intercalate (tokensOfEntries entries) ++ [.closeObject]
termination_by structural value => value

def tokensOfItems : List Value → List (List Token)
  | [] => []
  | item :: rest => tokensOf item :: tokensOfItems rest
termination_by structural items => items

def tokensOfEntries : List (Scalar × Value) → List (List Token)
  | [] => []
  | entry :: rest => tokensOfEntry entry :: tokensOfEntries rest
termination_by structural entries => entries

def tokensOfEntry : Scalar × Value → List Token
  | (key, value) => .atom key :: .colon :: tokensOf value
termination_by structural entry => entry

end

section Scanned

theorem spelled_scalar {s : Scalar} (own : s.Spellable) :
    Spelled (writeScalar s).toList [.atom s] := by
  cases s with
  | null => exact spelled_of_isAtom ⟨by decide, by decide, rfl⟩
  | bool b =>
      cases b with
      | true => exact spelled_of_isAtom ⟨by decide, by decide, rfl⟩
      | false => exact spelled_of_isAtom ⟨by decide, by decide, rfl⟩
  | int n => exact spelled_of_isAtom (isAtom_int own)
  | float x => exact spelled_of_isAtom (isAtom_float own)
  | text s => exact (scans_writeText s).spelled
  | foreign value => exact own.elim

abbrev SpelledAll (texts : List String) (tokens : List (List Token)) : Prop :=
  List.Forall₂ (fun text own => Spelled text.toList own) texts tokens

variable {texts : List String} {tokens : List (List Token)}

theorem scans_comma (depth : Nat) :
    Scans .between .between ("," ++ lineStart depth).toList [.comma] := by
  have comma : Scans .between .between ",".toList [.comma] :=
    @scans_singleton .between .between [.comma] ',' rfl
  rw [String.toList_append]
  exact comma.append (scans_lineStart depth)

theorem spelled_intercalate (depth : Nat) (all : SpelledAll texts tokens) :
    Spelled (("," ++ lineStart depth).intercalate texts).toList
      ([Token.comma].intercalate tokens) := by
  induction all with
  | nil => exact (scans_nil _).spelled
  | cons own rest ih =>
      cases rest with
      | nil => simpa using own
      | cons next others =>
          have joined := own.append (scans_comma depth) ⟨',', by simp, rfl⟩
          rw [String.intercalate_cons_cons, List.intercalate_cons_cons, String.toList_append,
            String.toList_append]
          exact Spelled.prepend joined ih

theorem spelled_writeBlock {opening closing : String} {first last : Token} (depth : Nat)
    (opens : Scans .between .between opening.toList [first])
    (closes : Scans .between .between closing.toList [last]) (all : SpelledAll texts tokens) :
    Spelled (writeBlock opening closing depth texts).toList
      (first :: [Token.comma].intercalate tokens ++ [last]) := by
  unfold writeBlock
  cases all with
  | nil =>
      rw [if_pos List.isEmpty_nil, String.toList_append]
      exact (opens.append closes).spelled
  | cons own rest =>
      rw [if_neg (by simp)]
      simp only [String.toList_append]
      have inner := spelled_intercalate (depth + 1) (.cons own rest)
      have ended := inner.append ((scans_lineStart depth).append closes)
        ⟨'\n', by simp [lineStart], rfl⟩
      have whole := (opens.append (scans_lineStart (depth + 1))).append ended
      simpa using whole.spelled

theorem spelled_entry {name : String} {text : String} {own : List Token}
    (spelled : Spelled text.toList own) :
    Spelled (writeKey (.text name) ++ ": " ++ text).toList
      (.atom (.text name) :: .colon :: own) := by
  have colon : Scans .between .between ": ".toList [.colon] :=
    (@scans_singleton .between .between [.colon] ':' rfl).append
      (@scans_singleton .between .between [] ' ' rfl)
  rw [String.toList_append, String.toList_append]
  exact Spelled.prepend ((scans_writeText name).append colon) spelled

theorem forall₂_prettyItems {items : List Value} (depth : Nat)
    (each : ∀ item ∈ items, Spelled (pretty depth item).toList (tokensOf item)) :
    SpelledAll (prettyItems depth items) (tokensOfItems items) := by
  induction items with
  | nil => exact .nil
  | cons item rest ih =>
      exact .cons (each item (by simp)) (ih fun other member => each other (by simp [member]))

theorem forall₂_prettyEntries {entries : Entries} (depth : Nat)
    (named : ∀ entry ∈ entries, ∃ name, entry.1 = .text name)
    (each : ∀ entry ∈ entries, Spelled (pretty depth entry.2).toList (tokensOf entry.2)) :
    SpelledAll (prettyEntries depth entries) (tokensOfEntries entries) := by
  induction entries with
  | nil => exact .nil
  | cons entry rest ih =>
      refine .cons ?_ (ih (fun other member => named other (by simp [member]))
        fun other member => each other (by simp [member]))
      obtain ⟨key, value⟩ := entry
      obtain ⟨name, rfl⟩ := named (key, value) (by simp)
      exact spelled_entry (each _ List.mem_cons_self)

theorem spelled_pretty {value : Value} (spellable : value.Spellable) (depth : Nat) :
    Spelled (pretty depth value).toList (tokensOf value) := by
  induction spellable generalizing depth with
  | scalar own => exact spelled_scalar own
  | list each ih =>
      exact spelled_writeBlock depth (@scans_singleton .between .between _ '[' rfl)
        (@scans_singleton .between .between _ ']' rfl)
        (forall₂_prettyItems (depth + 1) fun item member => ih item member (depth + 1))
  | object distinct named each ih =>
      exact spelled_writeBlock depth (@scans_singleton .between .between _ '\x7b' rfl)
        (@scans_singleton .between .between _ '\x7d' rfl)
        (forall₂_prettyEntries (depth + 1) named fun entry member => ih entry member (depth + 1))

end Scanned

section Read

def ReadsValue (tokens : List Token) (value : Value) (rest : List Token) : Prop :=
  ∃ shorter, readValue tokens = some (value, ⟨rest, shorter⟩)

def ReadsItems (tokens : List Token) (items : List Value) (rest : List Token) : Prop :=
  ∃ shorter, readItems tokens = some (items, ⟨rest, shorter⟩)

def ReadsEntries (tokens : List Token) (entries : Entries) (rest : List Token) : Prop :=
  ∃ shorter, readEntries tokens = some (entries, ⟨rest, shorter⟩)

variable {tokens rest more : List Token} {value : Value} {items : List Value} {entries : Entries}
  {name : String}

theorem readsItems_last (read : ReadsValue tokens value (.closeList :: rest)) :
    ReadsItems tokens [value] rest := by
  obtain ⟨shorter, read⟩ := read
  refine ⟨?_, ?_⟩
  · rw [List.length_cons] at shorter
    omega
  · rw [readItems, read]

theorem readsItems_comma (read : ReadsValue tokens value (.comma :: more))
    (later : ReadsItems more items rest) : ReadsItems tokens (value :: items) rest := by
  obtain ⟨shorter, read⟩ := read
  obtain ⟨less, later⟩ := later
  refine ⟨?_, ?_⟩
  · rw [List.length_cons] at shorter
    omega
  · rw [readItems, read]
    simp only [later]

theorem readsEntries_last (read : ReadsValue tokens value (.closeObject :: rest)) :
    ReadsEntries (.atom (.text name) :: .colon :: tokens) [(.text name, value)] rest := by
  obtain ⟨shorter, read⟩ := read
  refine ⟨?_, ?_⟩
  · simp only [List.length_cons] at shorter ⊢
    omega
  · rw [readEntries, read]

theorem readsEntries_comma (read : ReadsValue tokens value (.comma :: more))
    (later : ReadsEntries more entries rest) :
    ReadsEntries (.atom (.text name) :: .colon :: tokens)
      ((.text name, value) :: entries) rest := by
  obtain ⟨shorter, read⟩ := read
  obtain ⟨less, later⟩ := later
  refine ⟨?_, ?_⟩
  · simp only [List.length_cons] at shorter ⊢
    omega
  · rw [readEntries, read]
    simp only [later]

theorem readsValue_list (read : ReadsItems tokens items rest) :
    ReadsValue (.openList :: tokens) (.list items) rest := by
  obtain ⟨shorter, read⟩ := read
  refine ⟨?_, ?_⟩
  · simp only [List.length_cons]
    omega
  · rw [readValue, read]
    rintro others rfl
    simp [readItems, readValue] at read

theorem readsValue_object (read : ReadsEntries tokens entries rest) :
    ReadsValue (.openObject :: tokens) (.object (Entries.insertAll [] entries)) rest := by
  obtain ⟨shorter, read⟩ := read
  refine ⟨?_, ?_⟩
  · simp only [List.length_cons]
    omega
  · rw [readValue, read]
    rintro others rfl
    simp [readEntries] at read

theorem readsItems_tokensOf (given : items ≠ [])
    (each : ∀ item ∈ items, ∀ rest, ReadsValue (tokensOf item ++ rest) item rest)
    (rest : List Token) :
    ReadsItems ([Token.comma].intercalate (tokensOfItems items) ++ .closeList :: rest) items
      rest := by
  induction items with
  | nil => exact absurd rfl given
  | cons item others ih =>
      have own := each item (by simp)
      cases others with
      | nil =>
          simp only [tokensOfItems, List.intercalate_singleton]
          exact readsItems_last (own _)
      | cons next others =>
          have later := ih (by simp) fun other member => each other (by simp [member])
          simp only [tokensOfItems, List.intercalate_cons_cons, List.append_assoc] at later ⊢
          exact readsItems_comma (own _) later

theorem readsEntries_tokensOf (given : entries ≠ [])
    (named : ∀ entry ∈ entries, ∃ name, entry.1 = .text name)
    (each : ∀ entry ∈ entries, ∀ rest, ReadsValue (tokensOf entry.2 ++ rest) entry.2 rest)
    (rest : List Token) :
    ReadsEntries ([Token.comma].intercalate (tokensOfEntries entries) ++ .closeObject :: rest)
      entries rest := by
  induction entries with
  | nil => exact absurd rfl given
  | cons entry others ih =>
      obtain ⟨key, value⟩ := entry
      obtain ⟨name, rfl⟩ := named (key, value) (by simp)
      have own := each (.text name, value) (by simp)
      cases others with
      | nil =>
          simp only [tokensOfEntries, tokensOfEntry, List.intercalate_singleton, List.cons_append]
          exact readsEntries_last (own _)
      | cons next others =>
          have later := ih (by simp) (fun other member => named other (by simp [member]))
            fun other member => each other (by simp [member])
          simp only [tokensOfEntries, tokensOfEntry, List.intercalate_cons_cons, List.cons_append,
            List.append_assoc] at later ⊢
          exact readsEntries_comma (own _) later

theorem readsValue_tokensOf (spellable : value.Spellable) (rest : List Token) :
    ReadsValue (tokensOf value ++ rest) value rest := by
  induction spellable generalizing rest with
  | scalar own => exact ⟨by simp [tokensOf], by simp [tokensOf, readValue]⟩
  | @list items each ih =>
      rw [tokensOf, List.cons_append, List.cons_append, List.append_assoc]
      cases items with
      | nil => exact ⟨Nat.lt_succ_of_lt (Nat.lt_succ_self _), by simp [tokensOfItems, readValue]⟩
      | cons item others =>
          exact readsValue_list (readsItems_tokensOf (by simp) ih rest)
  | @object entries distinct named each ih =>
      rw [tokensOf, List.cons_append, List.cons_append, List.append_assoc]
      cases entries with
      | nil =>
          exact ⟨Nat.lt_succ_of_lt (Nat.lt_succ_self _), by simp [tokensOfEntries, readValue]⟩
      | cons entry others =>
          have read := readsValue_object (readsEntries_tokensOf (by simp) named ih rest)
          rwa [Entries.insertAll_of_distinct distinct] at read

end Read

theorem read_pretty {value : Value} (spellable : value.Spellable) (depth : Nat) :
    read (pretty depth value) = some value := by
  have scanned := spelled_pretty spellable depth [] (fun c member => by cases member)
  obtain ⟨shorter, found⟩ := readsValue_tokensOf spellable []
  rw [List.append_nil] at scanned
  have tokens : tokens (pretty depth value).toList = some (tokensOf value ++ []) := by
    rw [tokens, scanned]
    rfl
  rw [read, tokens]
  simp only [Option.bind_eq_bind, Option.bind_some]
  rw [found]

end Json

end TypedClient

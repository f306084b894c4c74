import TypedClient.Json.Writer
import TypedClient.Proofs.Json.Number

namespace TypedClient.Json

def Scans (mode after : Mode) (text : List Char) (tokens : List Token) : Prop :=
  ∀ rest, tokensFrom mode (text ++ rest) = (tokensFrom after rest).map (tokens ++ ·)

section Scans

variable {mode next after : Mode} {text more : List Char} {tokens others : List Token}

theorem scans_nil (mode : Mode) : Scans mode mode [] [] := by
  intro rest
  simp

theorem Scans.append (scans : Scans mode next text tokens)
    (scans' : Scans next after more others) :
    Scans mode after (text ++ more) (tokens ++ others) := by
  intro rest
  rw [List.append_assoc, scans, scans', Option.map_map]
  congr 1
  funext last
  exact (List.append_assoc _ _ _).symm

theorem scans_singleton {c : Char} (stepped : step mode c = some (tokens, after)) :
    Scans mode after [c] tokens := by
  intro rest
  rw [List.singleton_append, tokensFrom, stepped]
  simp only [Option.bind_eq_bind, Option.bind_some]
  cases tokensFrom after rest <;> rfl

theorem Scans.enter {c : Char} (stepped : step mode c = some ([], next))
    (scans : Scans next after text tokens) : Scans mode after (c :: text) tokens :=
  (scans_singleton stepped).append scans

end Scans

section Text

variable {units : List Nat}

theorem scans_code {digits : List Char} {first second third fourth : Nat}
    (values : digits.map hexValue? = [some first, some second, some third, some fourth]) :
    Scans (.code units 4 0)
      (.quotes (((((0 * 16 + first) * 16 + second) * 16 + third) * 16 + fourth) :: units))
      digits [] := by
  obtain ⟨a, digits, rfl, meant, values⟩ := List.map_eq_cons_iff.mp values
  obtain ⟨b, digits, rfl, meant', values⟩ := List.map_eq_cons_iff.mp values
  obtain ⟨c, digits, rfl, meant'', values⟩ := List.map_eq_cons_iff.mp values
  obtain ⟨d, digits, rfl, final, values⟩ := List.map_eq_cons_iff.mp values
  rw [List.map_eq_nil_iff] at values
  subst values
  have stepped (mark : Char) (value left before : Nat) (meant : hexValue? mark = some value)
      (more : 1 < left) : step (.code units left before) mark =
        some ([], .code units (left - 1) (before * 16 + value)) := by
    rw [step, meant]
    simp only [Option.bind_eq_bind, Option.bind_some]
    rw [if_neg (by omega)]
    rfl
  have last : step (.code units 1 (((0 * 16 + first) * 16 + second) * 16 + third)) d =
      some ([], .quotes (((((0 * 16 + first) * 16 + second) * 16 + third) * 16 + fourth) ::
        units)) := by
    rw [step, final]
    rfl
  exact .enter (stepped a first 4 0 meant (by decide)) <|
    .enter (stepped b second 3 _ meant' (by decide)) <|
    .enter (stepped c third 2 _ meant'' (by decide)) <| scans_singleton last

theorem hexCode_values : ∀ code < 32, (Text.hexCode 4 code).map hexValue? =
    [some 0, some 0, some (code / 16), some (code % 16)] := by
  decide

theorem scans_escapedChar (c : Char) :
    Scans (.quotes units) (.quotes (c.toNat :: units)) (escapedChar c) [] := by
  have simple {c letter : Char} (meant : simpleEscape? letter = some c) (plain : letter ≠ 'u') :
      Scans (.quotes units) (.quotes (c.toNat :: units)) ['\\', letter] [] := by
    refine .enter rfl (scans_singleton ?_)
    rw [step, if_neg (by simpa using plain), meant]
    rfl
  unfold escapedChar
  split
  · rename_i quoted
    rcases (Bool.or_eq_true _ _).mp quoted with quote | slash
    · rw [beq_iff_eq.mp quote]
      exact simple rfl (by decide)
    · rw [beq_iff_eq.mp slash]
      exact simple rfl (by decide)
  rename_i plain
  have named {letter : Char} (meaning : Char) (meant : simpleEscape? letter = some meaning)
      (plain : letter ≠ 'u') (same : (c == meaning) = true) :
      Scans (.quotes units) (.quotes (c.toNat :: units)) ['\\', letter] [] := by
    rw [beq_iff_eq.mp same]
    exact simple meant plain
  split
  · exact named '\n' rfl (by decide) ‹_›
  split
  · exact named '\r' rfl (by decide) ‹_›
  split
  · exact named '\t' rfl (by decide) ‹_›
  split
  · exact named '\x08' rfl (by decide) ‹_›
  split
  · exact named '\x0c' rfl (by decide) ‹_›
  split
  · rename_i control
    have code := @scans_code units _ _ _ _ _ (hexCode_values c.toNat control)
    rw [show (((0 * 16 + 0) * 16 + 0) * 16 + c.toNat / 16) * 16 + c.toNat % 16 = c.toNat by omega]
      at code
    exact Scans.enter rfl (Scans.enter rfl code)
  · rename_i visible
    rw [Bool.or_eq_true, not_or] at plain
    apply scans_singleton
    rw [step, if_neg plain.1, if_neg plain.2, if_neg visible]

theorem scans_escaped (text : List Char) :
    Scans (.quotes units) (.quotes ((text.map Char.toNat).reverse ++ units))
      (text.flatMap escapedChar) [] := by
  induction text generalizing units with
  | nil => exact scans_nil _
  | cons c rest ih =>
      rw [List.flatMap_cons, List.map_cons, List.reverse_cons, List.append_assoc]
      exact (scans_escapedChar c).append ih

theorem not_surrogate (c : Char) : ¬(0xD800 ≤ c.toNat ∧ c.toNat < 0xE000) := by
  rintro ⟨low, high⟩
  rcases c.valid with below | ⟨above, -⟩
  · exact absurd below (not_lt.mpr low)
  · exact absurd above (not_lt.mpr (Nat.le_of_lt_succ high))

theorem charsOfUnits_toNat (text : List Char) : charsOfUnits (text.map Char.toNat) = text := by
  have own (c : Char) : (if 0xD800 ≤ c.toNat ∧ c.toNat < 0xE000 then '\ufffd'
      else Char.ofNat c.toNat) = c := by
    rw [if_neg (not_surrogate c), Char.ofNat_toNat]
  match text with
  | [] => rfl
  | [c] =>
    rw [List.map_cons, List.map_nil, charsOfUnits, own]
  | c :: d :: rest =>
    have later := charsOfUnits_toNat (d :: rest)
    rw [List.map_cons] at later
    rw [List.map_cons, List.map_cons, charsOfUnits, later, own, if_neg]
    rintro ⟨low, high, -⟩
    exact not_surrogate c ⟨low, high.trans (by decide)⟩

theorem scans_writeText (s : String) :
    Scans .between .between (writeText s).toList [.atom (.text s)] := by
  rw [writeText, String.toList_ofList]
  have closed : step (.quotes ((s.toList.map Char.toNat).reverse ++ [])) '"' =
      some ([.atom (.text s)], .between) := by
    rw [step, if_pos (beq_self_eq_true _), List.append_nil, List.reverse_reverse,
      charsOfUnits_toNat,
      String.ofList_toList]
  exact Scans.enter rfl ((scans_escaped s.toList).append (scans_singleton closed))

end Text

section Between

def Ends (rest : List Char) : Prop := ∀ c ∈ rest.head?, isAtomChar c = false

def Spelled (text : List Char) (tokens : List Token) : Prop :=
  ∀ rest, Ends rest →
    tokensFrom .between (text ++ rest) = (tokensFrom .between rest).map (tokens ++ ·)

variable {text more : List Char} {tokens others : List Token}

theorem Scans.spelled (scans : Scans .between .between text tokens) : Spelled text tokens :=
  fun rest _ => scans rest

theorem Spelled.prepend (scans : Scans .between .between text tokens)
    (spelled : Spelled more others) : Spelled (text ++ more) (tokens ++ others) := by
  intro rest ends
  rw [List.append_assoc, scans, spelled rest ends, Option.map_map]
  congr 1
  funext last
  exact (List.append_assoc _ _ _).symm

theorem Spelled.append (spelled : Spelled text tokens)
    (scans : Scans .between .between more others) (ends : ∃ c ∈ more.head?, isAtomChar c = false) :
    Scans .between .between (text ++ more) (tokens ++ others) := by
  intro rest
  obtain ⟨c, first, stops⟩ := ends
  obtain ⟨behind, rfl⟩ := List.head?_eq_some_iff.mp first
  rw [List.append_assoc, spelled _ (by simpa [Ends] using stops), scans, Option.map_map]
  congr 1
  funext last
  exact (List.append_assoc _ _ _).symm

theorem scans_word {read word : List Char} (spelled : word.all isAtomChar = true) :
    Scans (.word read) (.word (word.reverse ++ read)) word [] := by
  induction word generalizing read with
  | nil => exact scans_nil _
  | cons c rest ih =>
      rw [List.all_cons, Bool.and_eq_true] at spelled
      have stepped : step (.word read) c = some ([], .word (c :: read)) := by
        rw [step, if_pos spelled.1]
      rw [List.reverse_cons, List.append_assoc]
      exact Scans.enter stepped (ih spelled.2)

theorem enter_atomChar {c : Char} (atom : isAtomChar c = true) :
    enter c = some ([], .word [c]) := by
  have plain (mark : Char) (other : isAtomChar mark = false) : c ≠ mark := by
    rintro rfl
    rw [atom] at other
    cases other
  have structural : structural? c = none := by
    unfold structural?
    split <;> first | rfl | exact absurd rfl (plain _ (by decide))
  have space : isSpace c = false := by
    simp [isSpace, plain ' ' (by decide), plain '\t' (by decide), plain '\n' (by decide),
      plain '\r' (by decide)]
  rw [enter, structural]
  simp [space, plain '"' (by decide), atom]

theorem spelled_of_isAtom {value : Scalar} (atom : IsAtom text value) :
    Spelled text [.atom value] := by
  obtain ⟨c, word, rfl⟩ := List.exists_cons_of_ne_nil atom.given
  have all := atom.spelled
  rw [List.all_cons, Bool.and_eq_true] at all
  have whole : Scans .between (.word (word.reverse ++ [c])) (c :: word) [] :=
    Scans.enter (enter_atomChar all.1) (scans_word all.2)
  have read : readAtom? (word.reverse ++ [c]).reverse = some value := by
    simpa using atom.read
  intro rest ends
  rw [whole rest]
  cases rest with
  | nil =>
      rw [tokensFrom, finish, read]
      rfl
  | cons d behind =>
      have stops : isAtomChar d = false := ends d rfl
      simp only [tokensFrom, step, stops, read]
      cases enter d with
      | none => simp
      | some entered =>
          cases tokensFrom entered.2 behind with
          | none => simp
          | some others => simp

theorem scans_lineStart (depth : Nat) : Scans .between .between (lineStart depth).toList [] := by
  simp only [lineStart, String.toList_append, String.toList_ofList]
  have spaces (count : Nat) :
      Scans .between .between (List.replicate count ' ') [] := by
    induction count with
    | zero => exact scans_nil _
    | succ count ih => exact Scans.enter rfl ih
  exact Scans.enter rfl (spaces _)

end Between

end TypedClient.Json

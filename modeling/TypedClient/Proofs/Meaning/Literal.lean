import Mathlib.Algebra.GroupWithZero.Nat
import TypedClient.Json.Token
import TypedClient.Proofs.Schema.Forms
import TypedClient.Proofs.Schema.Rendered
import TypedClient.Proofs.Text.Trim

/-!
Unions of literals, read by the rules of the emitted language: an unescaped quote ends a literal, a
backslash begins an escape, and no line ends inside. The type of an enumeration of texts denotes
exactly its distinct texts, in order, if and only if no text holds a backslash or the end of a line.
-/

namespace TypedClient

namespace Literal

def unitsOf (code : Nat) : List Nat :=
  if code < 0x10000 then [code]
  else [0xD800 + (code - 0x10000) / 0x400, 0xDC00 + (code - 0x10000) % 0x400]

/-- What a literal denotes: the code units of a text. -/
def units (text : List Char) : List Nat := text.flatMap fun c => unitsOf c.toNat

/-- Where in a union the reader is. The units read of a literal stand in reverse. -/
inductive Mode
  | before
  | behind
  | quoted (read : List Nat)
  | escape (read : List Nat)
  /-- Behind an escaped zero, which is the zero character unless a digit follows. -/
  | zero (read : List Nat)
  /-- Behind an escaped carriage return, to which a line feed may belong. -/
  | wrapped (read : List Nat)
  | code (read : List Nat) (left value : Nat)
  | unicode (read : List Nat)
  | braced (read : List Nat) (value : Option Nat)

def endsLine (c : Char) : Bool := c == '\n' || c == '\r'

/-- A character of a literal that stands behind no backslash, with the literal that it ends. -/
def enter (read : List Nat) (c : Char) : Option (List (List Nat) × Mode) :=
  if c == '\'' then some ([read.reverse], .behind)
  else if c == '\\' then some ([], .escape read)
  else if endsLine c then none
  else some ([], .quoted ((unitsOf c.toNat).reverse ++ read))

def meaning : Char → Char
  | 'b' => '\x08'
  | 'f' => '\x0c'
  | 'n' => '\n'
  | 'r' => '\r'
  | 't' => '\t'
  | 'v' => '\x0b'
  | c => c

def enterEscape (read : List Nat) (c : Char) : Option Mode :=
  if c == 'u' then some (.unicode read)
  else if c == 'x' then some (.code read 2 0)
  else if c == '0' then some (.zero read)
  else if c == '\r' then some (.wrapped read)
  else if c == '\n' || c == '\u2028' || c == '\u2029' then some (.quoted read)
  else if c.isDigit then none
  else some (.quoted ((unitsOf (meaning c).toNat).reverse ++ read))

def step : Mode → Char → Option (List (List Nat) × Mode)
  | .before, c =>
    if Text.isBlank c then some ([], .before)
    else if c == '\'' then some ([], .quoted [])
    else none
  | .behind, c =>
    if Text.isBlank c then some ([], .behind)
    else if c == '|' then some ([], .before)
    else none
  | .quoted read, c => enter read c
  | .escape read, c => (enterEscape read c).map ([], ·)
  | .zero read, c => if c.isDigit then none else enter (0 :: read) c
  | .wrapped read, c => if c == '\n' then some ([], .quoted read) else enter read c
  | .code read left value, c =>
    (Json.hexValue? c).map fun digit =>
      ([], if left ≤ 1 then .quoted ((value * 16 + digit) :: read)
        else .code read (left - 1) (value * 16 + digit))
  | .unicode read, c =>
    if c == '\x7b' then some ([], .braced read none)
    else (Json.hexValue? c).map fun digit => ([], .code read 3 digit)
  | .braced read value, c =>
    if c == '\x7d' then value.map fun code => ([], .quoted ((unitsOf code).reverse ++ read))
    else
      ((Json.hexValue? c).map (value.getD 0 * 16 + ·)).bind fun code =>
        if code ≤ 0x10FFFF then some ([], .braced read (some code)) else none

/-- The literals from a mode on; none if the text is no union of literals. -/
def readFrom : Mode → List Char → Option (List (List Nat))
  | .behind, [] => some []
  | _, [] => none
  | mode, c :: rest => (step mode c).bind fun next => (readFrom next.2 rest).map (next.1 ++ ·)

theorem readFrom_cons (mode : Mode) (c : Char) (rest : List Char) :
    readFrom mode (c :: rest) =
      (step mode c).bind fun next => (readFrom next.2 rest).map (next.1 ++ ·) := by
  cases mode <;> rfl

/-- What the literals of a union denote. -/
def read (type : String) : Option (List (List Nat)) := readFrom .before type.toList

section Cost

def weight (c : Char) : Nat := if Text.isBlank c || c == '|' then 0 else 1

def weights (text : List Char) : Nat := (text.map weight).sum

def cost (unit : Nat) : Nat :=
  if unit = '\''.toNat ∨ unit = '\\'.toNat then 2
  else if 0xDC00 ≤ unit ∧ unit < 0xE000 then 0
  else weight (Char.ofNat unit)

def costs (units : List Nat) : Nat := (units.map cost).sum

def paid : Mode → Nat
  | .before | .behind => 0
  | .quoted read | .wrapped read => 1 + costs read
  | .escape read | .zero read | .code read _ _ | .unicode read | .braced read _ => 2 + costs read

def total (literals : List (List Nat)) : Nat := (literals.map fun literal => costs literal + 2).sum

@[simp] theorem weights_nil : weights [] = 0 := rfl

@[simp] theorem weights_cons (c : Char) (text : List Char) :
    weights (c :: text) = weight c + weights text := rfl

@[simp] theorem weights_append (front back : List Char) :
    weights (front ++ back) = weights front + weights back := by
  simp [weights]

@[simp] theorem costs_nil : costs [] = 0 := rfl

@[simp] theorem costs_cons (unit : Nat) (rest : List Nat) :
    costs (unit :: rest) = cost unit + costs rest := rfl

@[simp] theorem costs_append (front back : List Nat) :
    costs (front ++ back) = costs front + costs back := by
  simp [costs]

@[simp] theorem costs_reverse (read : List Nat) : costs read.reverse = costs read := by
  simp [costs]

@[simp] theorem total_append (front back : List (List Nat)) :
    total (front ++ back) = total front + total back := by
  simp [total]

theorem weight_le (c : Char) : weight c ≤ 1 := by
  unfold weight
  split <;> omega

theorem cost_le (unit : Nat) : cost unit ≤ 2 := by
  have bound := weight_le (Char.ofNat unit)
  unfold cost
  split
  · omega
  · split <;> omega

theorem cost_low {unit : Nat} (low : 0xDC00 ≤ unit) (bound : unit < 0xE000) : cost unit = 0 := by
  have quote : '\''.toNat = 39 := rfl
  have slash : '\\'.toNat = 92 := rfl
  unfold cost
  rw [if_neg (by omega), if_pos ⟨low, bound⟩]

theorem cost_high {unit : Nat} (high : 0xD800 ≤ unit) (bound : unit < 0xDC00) : cost unit = 1 := by
  have quote : '\''.toNat = 39 := rfl
  have slash : '\\'.toNat = 92 := rfl
  have foreign : ¬ unit.isValidChar := by
    unfold Nat.isValidChar
    omega
  have none_there : Char.ofNat unit = Char.ofNat 0 := by
    rw [Char.ofNat, dif_neg foreign]
    rfl
  have solid : weight (Char.ofNat 0) = 1 := by decide
  unfold cost
  rw [if_neg (by omega), if_neg (by omega), none_there, solid]

/-- Of a pair of units only the first one counts. -/
theorem costs_pair {code : Nat} (large : 0x10000 ≤ code) :
    costs (unitsOf code) = cost (0xD800 + (code - 0x10000) / 0x400) := by
  have low : cost (0xDC00 + (code - 0x10000) % 0x400) = 0 := cost_low (by omega) (by omega)
  have pair : unitsOf code =
      [0xD800 + (code - 0x10000) / 0x400, 0xDC00 + (code - 0x10000) % 0x400] :=
    if_neg (by omega)
  rw [pair, costs_cons, costs_cons, costs_nil, low, Nat.add_zero]

theorem costs_unitsOf_le (code : Nat) : costs (unitsOf code) ≤ 2 := by
  by_cases small : code < 0x10000
  · have own : unitsOf code = [code] := if_pos small
    rw [own]
    exact cost_le code
  · rw [costs_pair (by omega)]
    exact cost_le _

def extra (c : Char) : Nat := if c == '\'' || c == '\\' then 1 else 0

theorem costs_unitsOf (c : Char) : costs (unitsOf c.toNat) = weight c + extra c := by
  have valid : c.toNat.isValidChar := c.valid
  unfold Nat.isValidChar at valid
  by_cases small : c.toNat < 0x10000
  · have own : unitsOf c.toNat = [c.toNat] := if_pos small
    by_cases special : c = '\'' ∨ c = '\\'
    · rcases special with rfl | rfl
      · decide
      · decide
    · have plain : extra c = 0 := by simpa [extra] using special
      have other : ¬ (c.toNat = '\''.toNat ∨ c.toNat = '\\'.toNat) := by
        rwa [Char.toNat_inj, Char.toNat_inj]
      rw [own, costs_cons, costs_nil, cost, if_neg other, if_neg (by omega), Char.ofNat_toNat,
        plain]
  · have pair := costs_pair (by omega : 0x10000 ≤ c.toNat)
    have high : cost (0xD800 + (c.toNat - 0x10000) / 0x400) = 1 := cost_high (by omega) (by omega)
    have blank : Text.isBlank c = false := by
      simp only [Text.isBlank, Bool.or_eq_false_iff, Bool.and_eq_false_iff, decide_eq_false_iff_not,
        beq_eq_false_iff_ne]
      omega
    have other : ∀ d : Char, d.toNat < 0x10000 → c ≠ d := by
      rintro d bound rfl
      exact small bound
    have solid : weight c = 1 := by
      simp [weight, blank, other '|' (by decide)]
    have plain : extra c = 0 := by
      simp [extra, other '\'' (by decide), other '\\' (by decide)]
    rw [pair, high, solid, plain]

theorem total_enter {read : List Nat} {c : Char} {ended : List (List Nat)} {mode : Mode}
    (entered : enter read c = some (ended, mode)) :
    total ended + paid mode ≤ 1 + costs read + weight c := by
  unfold enter at entered
  split at entered
  · rename_i quote
    have own : weight c = 1 := by
      rw [beq_iff_eq.mp quote]
      decide
    cases entered
    have closed : total [read.reverse] + paid .behind = costs read + 2 := by simp [total, paid]
    omega
  · rename_i unquoted
    split at entered
    · rename_i slash
      have own : weight c = 1 := by
        rw [beq_iff_eq.mp slash]
        decide
      cases entered
      simp [total, paid, own]
      omega
    · rename_i plain
      split at entered
      · cases entered
      · have own : extra c = 0 := by simp_all [extra]
        have paying := costs_unitsOf c
        cases entered
        simp [total, paid]
        omega

theorem costs_meaning_le (c : Char) : costs (unitsOf (meaning c).toNat) ≤ 1 + weight c := by
  by_cases letter : c ∈ ['b', 'f', 'n', 'r', 't', 'v']
  · have checked : ∀ d ∈ ['b', 'f', 'n', 'r', 't', 'v'],
        costs (unitsOf (meaning d).toNat) ≤ 1 + weight d := Text.forall_of_all (by decide)
    exact checked c letter
  · have same : meaning c = c := by
      unfold meaning
      split <;> simp_all
    have bound : extra c ≤ 1 := by
      unfold extra
      split <;> omega
    rw [same, costs_unitsOf]
    omega

theorem paid_escape {read : List Nat} {c : Char} {mode : Mode}
    (entered : enterEscape read c = some mode) : paid mode ≤ 2 + costs read + weight c := by
  have meant := costs_meaning_le c
  unfold enterEscape at entered
  split_ifs at entered
  all_goals
    cases entered
    simp only [paid, costs_append, costs_reverse]
    omega

theorem hexValue?_spec {c : Char} {digit : Nat} (found : Json.hexValue? c = some digit) :
    weight c = 1 ∧ digit < 16 := by
  have lower : ('a' ≤ c ↔ 97 ≤ c.toNat) ∧ (c ≤ 'f' ↔ c.toNat ≤ 102) := ⟨Iff.rfl, Iff.rfl⟩
  have upper : ('A' ≤ c ↔ 65 ≤ c.toNat) ∧ (c ≤ 'F' ↔ c.toNat ≤ 70) := ⟨Iff.rfl, Iff.rfl⟩
  have bounds : 48 ≤ c.toNat ∧ c.toNat ≤ 102 ∧ digit < 16 := by
    unfold Json.hexValue? at found
    split_ifs at found with decimal small capital
    all_goals cases found
    · rw [Text.isDigit_iff] at decimal
      omega
    · rw [lower.1, lower.2] at small
      omega
    · rw [upper.1, upper.2] at capital
      omega
  have blank : Text.isBlank c = false := by
    simp only [Text.isBlank, Bool.or_eq_false_iff, Bool.and_eq_false_iff, decide_eq_false_iff_not,
      beq_eq_false_iff_ne]
    omega
  have sign : c ≠ '|' := by
    rintro rfl
    exact absurd bounds.2.1 (by decide)
  exact ⟨by simp [weight, blank, sign], bounds.2.2⟩

theorem total_step {mode next : Mode} {c : Char} {ended : List (List Nat)}
    (stepped : step mode c = some (ended, next)) :
    total ended + paid next ≤ paid mode + weight c := by
  cases mode with
  | before =>
      simp only [step] at stepped
      split_ifs at stepped with blank quote
      · cases stepped
        simp [total, paid]
      · have own : weight c = 1 := by
          rw [beq_iff_eq.mp quote]
          decide
        cases stepped
        simp [total, paid, own]
  | behind =>
      simp only [step] at stepped
      split_ifs at stepped
      all_goals
        cases stepped
        simp [total, paid]
  | quoted read => exact total_enter stepped
  | escape read =>
      obtain ⟨entered, found, same⟩ := Option.map_eq_some_iff.mp stepped
      have paying : paid entered ≤ 2 + costs read + weight c := paid_escape found
      cases same
      simpa [total, paid] using paying
  | zero read =>
      simp only [step] at stepped
      split_ifs at stepped
      have paying := total_enter stepped
      have own : cost 0 = 1 := by decide
      have due : paid (.zero read) = 2 + costs read := rfl
      rw [costs_cons, own] at paying
      omega
  | wrapped read =>
      simp only [step] at stepped
      split_ifs at stepped
      · cases stepped
        simp [total, paid]
      · exact total_enter stepped
  | code read left value =>
      obtain ⟨digit, found, same⟩ := Option.map_eq_some_iff.mp stepped
      have own := (hexValue?_spec found).1
      have bound := cost_le (value * 16 + digit)
      cases same
      split
      · simp only [total, paid, costs_cons, List.map_nil, List.sum_nil]
        omega
      · simp [total, paid]
  | unicode read =>
      simp only [step] at stepped
      split_ifs at stepped
      · cases stepped
        simp [total, paid]
      · obtain ⟨digit, found, same⟩ := Option.map_eq_some_iff.mp stepped
        cases same
        simp [total, paid]
  | braced read value =>
      simp only [step] at stepped
      split_ifs at stepped with closes
      · obtain ⟨code, -, same⟩ := Option.map_eq_some_iff.mp stepped
        have bound := costs_unitsOf_le code
        have own : weight c = 1 := by
          rw [beq_iff_eq.mp closes]
          decide
        cases same
        simp only [total, paid, costs_append, costs_reverse, List.map_nil, List.sum_nil]
        omega
      · obtain ⟨code, -, made⟩ := Option.bind_eq_some_iff.mp stepped
        split_ifs at made
        cases made
        simp [total, paid]

/-- The literals that are read weigh no more than the text. -/
theorem total_readFrom {mode : Mode} {text : List Char} {literals : List (List Nat)}
    (found : readFrom mode text = some literals) : total literals ≤ paid mode + weights text := by
  induction text generalizing mode literals with
  | nil =>
      cases mode with
      | behind =>
          cases found
          simp [total]
      | _ => cases found
  | cons c rest ih =>
      rw [readFrom_cons] at found
      obtain ⟨⟨ended, next⟩, stepped, later⟩ := Option.bind_eq_some_iff.mp found
      obtain ⟨others, reads, rfl⟩ := Option.map_eq_some_iff.mp later
      have own := total_step stepped
      have tail := ih reads
      rw [total_append, weights_cons]
      dsimp only at tail ⊢
      omega

end Cost

section Union

variable {text : List Char} {texts : List (List Char)}

/-- The literal of a text as it is emitted. -/
def spelled (text : List Char) : List Char := '\'' :: (escaped text ++ ['\''])

def joined (texts : List (List Char)) : List Char :=
  [' ', '|', ' '].intercalate (texts.map spelled)

theorem escaped_quote (text : List Char) : escaped ('\'' :: text) = '\\' :: '\'' :: escaped text :=
  rfl

theorem readFrom_silent {mode next : Mode} {c : Char} (stepped : step mode c = some ([], next))
    (rest : List Char) :
    ((step mode c).bind fun next => (readFrom next.2 rest).map (next.1 ++ ·)) =
      readFrom next rest := by
  rw [stepped, Option.bind_some]
  exact Option.map_id'

theorem readFrom_quote (read : List Nat) (tail : List Char) :
    readFrom (.quoted read) ('\\' :: '\'' :: tail) =
      readFrom (.quoted ((unitsOf '\''.toNat).reverse ++ read)) tail := by
  have escapes : step (.quoted read) '\\' = some ([], .escape read) := rfl
  have stands : step (.escape read) '\'' =
      some ([], .quoted ((unitsOf '\''.toNat).reverse ++ read)) := rfl
  rw [readFrom_cons, readFrom_silent escapes, readFrom_cons, readFrom_silent stands]

/-- Without backslashes every character stands for itself, up to the end of a line. -/
theorem readFrom_escaped (plain : '\\' ∉ text) (read : List Nat) (rest : List Char) :
    readFrom (.quoted read) (escaped text ++ rest) =
      if text.any endsLine then none
      else readFrom (.quoted ((units text).reverse ++ read)) rest := by
  induction text generalizing read with
  | nil => rfl
  | cons c more ih =>
      have later := ih fun member => plain (List.mem_cons_of_mem c member)
      have slash : c ≠ '\\' := fun same => plain (by simp [same])
      have grown : (units (c :: more)).reverse ++ read =
          (units more).reverse ++ ((unitsOf c.toNat).reverse ++ read) := by
        simp [units]
      rw [grown, List.any_cons]
      by_cases quote : c = '\''
      · subst quote
        have inside : endsLine '\'' = false := by decide
        rw [escaped_quote, List.cons_append, List.cons_append, readFrom_quote, later, inside,
          Bool.false_or]
      · rw [escaped_cons quote, List.cons_append, readFrom_cons]
        by_cases line : endsLine c = true
        · simp [step, enter, quote, slash, line]
        · have stands : step (.quoted read) c =
              some ([], .quoted ((unitsOf c.toNat).reverse ++ read)) := by
            rw [step, enter, if_neg (by simpa using quote), if_neg (by simpa using slash),
              if_neg line]
          have goes : endsLine c = false := by simpa using line
          rw [readFrom_silent stands, later, goes, Bool.false_or]

theorem readFrom_spelled (plain : '\\' ∉ text) (rest : List Char) :
    readFrom .before (spelled text ++ rest) =
      if text.any endsLine then none else (readFrom .behind rest).map (units text :: ·) := by
  have opens (tail : List Char) :
      readFrom .before ('\'' :: tail) = readFrom (.quoted []) tail := by
    have solid : Text.isBlank '\'' = false := by decide
    simp [readFrom_cons, step, solid]
  have closes (read : List Nat) (tail : List Char) :
      readFrom (.quoted read) ('\'' :: tail) = (readFrom .behind tail).map (read.reverse :: ·) := by
    simp [readFrom_cons, step, enter]
  rw [spelled, List.cons_append, List.append_assoc, opens, readFrom_escaped plain,
    List.singleton_append, closes, List.append_nil, List.reverse_reverse]

theorem joined_cons (text : List Char) (given : texts ≠ []) :
    joined (text :: texts) = spelled text ++ ' ' :: '|' :: ' ' :: joined texts := by
  unfold joined
  rw [List.map_cons, List.intercalate_cons_of_ne_nil (by simpa using given), List.append_assoc]
  rfl

theorem readFrom_joined (given : texts ≠ []) (plain : ∀ text ∈ texts, '\\' ∉ text) :
    readFrom .before (joined texts) =
      if texts.any (·.any endsLine) then none else some (texts.map units) := by
  induction texts with
  | nil => exact absurd rfl given
  | cons text rest ih =>
      have own := plain text (by simp)
      by_cases more : rest = []
      · have whole : joined [text] = spelled text ++ [] := by simp [joined]
        rw [more, whole, readFrom_spelled own, List.any_cons, List.any_nil, Bool.or_false]
        rfl
      · have later := ih more fun other member => plain other (by simp [member])
        have between (tail : List Char) :
            readFrom .behind (' ' :: '|' :: ' ' :: tail) = readFrom .before tail := by
          have blank : Text.isBlank ' ' = true := by decide
          have sign : Text.isBlank '|' = false := by decide
          simp [readFrom_cons, step, blank, sign, Function.comp_def]
        rw [joined_cons text more, readFrom_spelled own, between, later, List.any_cons]
        cases text.any endsLine <;> cases rest.any (·.any endsLine) <;> rfl

theorem costs_units (text : List Char) :
    costs (units text) = weights (escaped text) + text.count '\\' := by
  induction text with
  | nil => rfl
  | cons c rest ih =>
      have own := costs_unitsOf c
      have grown : costs (units (c :: rest)) = costs (unitsOf c.toNat) + costs (units rest) := by
        simp [units]
      rw [grown, own, ih, List.count_cons]
      by_cases quote : c = '\''
      · subst quote
        have twice : weight '\'' + extra '\'' = weight '\\' + weight '\'' := by decide
        rw [escaped_quote, weights_cons, weights_cons, twice, if_neg (by decide)]
        omega
      · rw [escaped_cons quote, weights_cons]
        by_cases slash : c = '\\'
        · subst slash
          rw [if_pos (by decide), show extra '\\' = 1 from rfl]
          omega
        · have none_extra : extra c = 0 := by simp [extra, quote, slash]
          rw [none_extra, if_neg (by simpa using slash)]
          omega

theorem total_units (texts : List (List Char)) :
    total (texts.map units) = weights (joined texts) + (texts.map (·.count '\\')).sum := by
  have quotes (text : List Char) : weights (spelled text) = weights (escaped text) + 2 := by
    have own : weight '\'' = 1 := by decide
    simp [spelled, own]
    omega
  have separator : weights [' ', '|', ' '] = 0 := by decide
  induction texts with
  | nil => rfl
  | cons text rest ih =>
      have head : total ((text :: rest).map units) =
          costs (units text) + 2 + total (rest.map units) := rfl
      have front : weights (joined (text :: rest)) =
          weights (spelled text) + weights (joined rest) := by
        by_cases more : rest = []
        · simp [more, joined]
        · have gap (tail : List Char) : weights (' ' :: '|' :: ' ' :: tail) = weights tail := by
            have front := weights_append [' ', '|', ' '] tail
            rw [separator, Nat.zero_add] at front
            exact front
          rw [joined_cons text more, weights_append, gap]
      rw [head, ih, costs_units, front, quotes, List.map_cons, List.sum_cons]
      omega

/-- A union of literals denotes the texts that it is made of exactly if none of them holds a
backslash or the end of a line. -/
theorem readFrom_joined_iff (given : texts ≠ []) :
    readFrom .before (joined texts) = some (texts.map units) ↔
      ∀ text ∈ texts, ∀ c ∈ text, c ≠ '\\' ∧ endsLine c = false := by
  constructor
  · intro reads
    have paying := total_readFrom reads
    have plain : ∀ text ∈ texts, '\\' ∉ text := by
      rw [total_units] at paying
      have nothing : (texts.map (·.count '\\')).sum = 0 := by
        simp only [paid] at paying
        omega
      intro text member
      apply List.count_eq_zero.mp
      exact List.sum_eq_zero_iff_forall_eq_nat.mp nothing _ (List.mem_map_of_mem member)
    have ends : texts.any (·.any endsLine) = false := by
      rw [readFrom_joined given plain] at reads
      by_contra some_line
      rw [if_pos (by simpa using some_line)] at reads
      cases reads
    intro text member c inside
    refine ⟨fun same => plain text member (same ▸ inside), ?_⟩
    have own := List.any_eq_false.mp ends text member
    have each := List.any_eq_false.mp (Bool.eq_false_iff.mpr own) c inside
    exact Bool.eq_false_iff.mpr each
  · intro each
    have plain : ∀ text ∈ texts, '\\' ∉ text :=
      fun text member inside => (each text member _ inside).1 rfl
    have ends : texts.any (·.any endsLine) = false := by
      simp only [List.any_eq_false, Bool.not_eq_true]
      exact fun text member c inside => (each text member c inside).2
    rw [readFrom_joined given plain, ends]
    rfl

end Union

section Enumeration

theorem toList_literalText (text : String) :
    (literalText (.text text)).toList = spelled text.toList := by
  have own : literalText (.text text) = "'" ++ replaceText "'" "\\'" text ++ "'" := rfl
  simp [own, spelled, replaceText, replaceAll_quote]

theorem head?_escaped (text : List Char) : (escaped text).head? ≠ some '\'' := by
  cases text with
  | nil => simp [escaped]
  | cons c rest =>
      by_cases quote : c = '\''
      · simp [quote, escaped_quote]
      · simp [escaped_cons quote, quote]

theorem escaped_cons_inj {c d : Char} {rest more : List Char}
    (same : escaped (c :: rest) = escaped (d :: more)) : c = d ∧ escaped rest = escaped more := by
  by_cases quote : c = '\'' <;> by_cases other : d = '\''
  · subst quote other
    rw [escaped_quote, escaped_quote] at same
    simpa using same
  · rw [quote, escaped_quote, escaped_cons other, List.cons.injEq] at same
    exact absurd (by rw [← same.2]; rfl) (head?_escaped more)
  · rw [other, escaped_quote, escaped_cons quote, List.cons.injEq] at same
    exact absurd (by rw [same.2]; rfl) (head?_escaped rest)
  · rw [escaped_cons quote, escaped_cons other] at same
    simpa using same

theorem escaped_ne_nil (c : Char) (rest : List Char) : escaped (c :: rest) ≠ [] := by
  by_cases quote : c = '\''
  · simp [quote, escaped_quote]
  · simp [escaped_cons quote]

theorem escaped_inj {first second : List Char} (same : escaped first = escaped second) :
    first = second := by
  induction first generalizing second with
  | nil =>
      cases second with
      | nil => rfl
      | cons d more => exact absurd same.symm (escaped_ne_nil d more)
  | cons c rest ih =>
      cases second with
      | nil => exact absurd same (escaped_ne_nil c rest)
      | cons d more =>
          obtain ⟨rfl, later⟩ := escaped_cons_inj same
          rw [ih later]

theorem literalText_inj {first second : String}
    (same : literalText (.text first) = literalText (.text second)) : first = second := by
  have spelt := congrArg String.toList same
  rw [toList_literalText, toList_literalText, spelled, spelled, List.cons.injEq,
    List.append_left_inj] at spelt
  exact String.toList_inj.mp (escaped_inj spelt.2)

/-- The type of an enumeration of texts is the union of the literals of its distinct texts. -/
theorem ofEnum_texts (texts : List String) :
    PropertyType.ofEnum (.texts texts) =
      .ok (.literals (texts.eraseDups.map fun text => literalText (.text text))) := by
  have faithful (first second : String) :
      (literalText (.text first) == literalText (.text second)) = (first == second) := by
    rw [Bool.eq_iff_iff, beq_iff_eq, beq_iff_eq]
    exact ⟨literalText_inj, fun same => by rw [same]⟩
  have distinct := eraseDupsBy_map faithful texts
  have listed : (texts.map Value.text).map literalText =
      texts.map fun text => literalText (.text text) := List.map_map
  change Except.ok (PropertyType.literals ((texts.map Value.text).map literalText).eraseDups) = _
  rw [listed, List.eraseDups, distinct]

theorem toList_render_literals (texts : List String) :
    (PropertyType.literals (texts.map fun text => literalText (.text text))).render.toList =
      joined (texts.map String.toList) := by
  have separator : " | ".toList = [' ', '|', ' '] := rfl
  have spelt : (texts.map fun text => literalText (.text text)).map String.toList =
      (texts.map String.toList).map spelled := by
    simp [toList_literalText]
  change (" | ".intercalate (texts.map fun text => literalText (.text text))).toList = _
  rw [String.toList_intercalate, spelt, separator]
  rfl

end Enumeration

end Literal

/-- A schema without structure that lists texts as its choices. -/
structure ListsTexts (entries : Entries) (texts : List String) : Prop where
  plain : IsPlainSchema entries
  array : (Entries.field entries "type").isText "array" = false
  object : (Entries.field entries "type").isText "object" = false
  choices : Entries.field entries "enum" = .texts texts
  given : texts ≠ []

theorem ListsTexts.form {entries : Entries} {texts : List String}
    (lists : ListsTexts entries texts) :
    SchemaForm.ofEntries entries = .enum (.texts texts) := by
  have holds : (Value.texts texts).isTrue = true := by
    cases texts with
    | nil => exact absurd rfl lists.given
    | cons first rest => rfl
  simp [SchemaForm.ofEntries, lists.array, lists.object, lists.choices, holds]

/-- The type of an enumeration of texts is a union of literals. It denotes exactly the distinct
texts, in order, if and only if no text holds a backslash or the end of a line. -/
theorem literals_denote_choices {entries : Entries} {texts : List String}
    (lists : ListsTexts entries texts) (context : TypeContext) (remaining : Schemas) :
    ∃ type, typeOf context remaining (.object entries) = .ok ⟨type, [], []⟩ ∧
      (Literal.read type.render = some (texts.eraseDups.map fun text => Literal.units text.toList) ↔
        ∀ text ∈ texts, ∀ c ∈ text.toList, c ≠ '\\' ∧ c ≠ '\n' ∧ c ≠ '\r') := by
  have given : texts.eraseDups.map String.toList ≠ [] := by
    simpa using eraseDups_ne_nil lists.given
  have exactly_plain := Literal.readFrom_joined_iff given
  refine ⟨.literals (texts.eraseDups.map fun text => literalText (.text text)), ?_, ?_⟩
  · rw [typeOf_plain lists.plain, lists.form, typeOfForm, Literal.ofEnum_texts]
    rfl
  · rw [Literal.read, Literal.toList_render_literals]
    simpa [Literal.endsLine, List.map_map, Function.comp_def] using exactly_plain

/-- A quote and the sign of a union inside of a text do not end its literal. -/
theorem literals_denote_choices_quoted : ∃ type,
    typeOf {} [] (.object
      [(.text "type", .text "string"), (.text "enum", .texts ["it's", "a | b", "it's"])]) =
        .ok ⟨type, [], []⟩ ∧
    Literal.read type.render =
      some (["it's", "a | b"].map fun text => Literal.units text.toList) := by
  have lists : ListsTexts
      [(.text "type", .text "string"), (.text "enum", .texts ["it's", "a | b", "it's"])]
      ["it's", "a | b", "it's"] :=
    ⟨⟨rfl, rfl, rfl, rfl⟩, by decide, by decide, rfl, by decide⟩
  obtain ⟨type, typed, exactly_plain⟩ := literals_denote_choices lists {} []
  exact ⟨type, typed, exactly_plain.mpr (by simp)⟩

end TypedClient

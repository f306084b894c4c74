import TypedClient.Import.Reader
import TypedClient.Proofs.Text.Words

/-!
The tokens of a line of source code: words, marks, quoted paths and a comment up to the end of the
line. What stands between them does not count: up to the first comment, whose text may change or
grow, the tokens stay where lines are trimmed or joined by a blank, and where words are put one
blank apart, if no path holds more than one blank at a time.
-/

namespace TypedClient.Layout

open Text ImportText

inductive Token
  | word (text : List Char)
  | mark (c : Char)
  /-- What stands between the quotes, as it is written. -/
  | path (text : List Char)
  | comment (text : List Char)
  deriving DecidableEq, Repr

def isMark (c : Char) : Bool := c == '\x7b' || c == '\x7d' || c == ',' || c == ';'

def isWordChar (c : Char) : Bool := !isBlank c && !isMark c && !isQuote c && c != '/'

/-- Where in a line the reader is. What it has read of a token stands in reverse. -/
inductive Mode
  | between
  | word (read : List Char)
  | quoted (quote : Char) (read : List Char)
  | escaped (quote : Char) (read : List Char)
  | slash
  | comment (read : List Char)
  deriving DecidableEq

/-- The first character of a token, or none of one. -/
def start (c : Char) : Option (List Token × Mode) :=
  if isBlank c then some ([], .between)
  else if isMark c then some ([.mark c], .between)
  else if isQuote c then some ([], .quoted c [])
  else if c == '/' then some ([], .slash)
  else some ([], .word [c])

def step : Mode → Char → Option (List Token × Mode)
  | .between, c => start c
  | .word read, c =>
    if isWordChar c then some ([], .word (c :: read))
    else (start c).map fun next => (.word read.reverse :: next.1, next.2)
  | .quoted quote read, c =>
    if c == quote then some ([.path read.reverse], .between)
    else if c == '\\' then some ([], .escaped quote read)
    else some ([], .quoted quote (c :: read))
  | .escaped quote read, c => some ([], .quoted quote (c :: '\\' :: read))
  | .slash, c => if c == '/' then some ([], .comment []) else none
  | .comment read, c => some ([], .comment (c :: read))

def finish : Mode → Option (List Token)
  | .between => some []
  | .word read => some [.word read.reverse]
  | .comment read => some [.comment read.reverse]
  | _ => none

def scanFrom : Mode → List Char → Option (List Token)
  | mode, [] => finish mode
  | mode, c :: rest => (step mode c).bind fun next => (scanFrom next.2 rest).map (next.1 ++ ·)

/-- The tokens of a line; none if a quote is not closed or a slash begins no comment. -/
def scan (line : List Char) : Option (List Token) := scanFrom .between line

/-- What may stand between two quotes: no quote of their kind, but behind a backslash. -/
inductive Content (quote : Char) : List Char → Prop
  | nil : Content quote []
  | plain {c rest} (other : c ≠ quote) (unescaped : c ≠ '\\') (content : Content quote rest) :
      Content quote (c :: rest)
  | escape {rest} (c : Char) (other : quote ≠ '\\') (content : Content quote rest) :
      Content quote ('\\' :: c :: rest)

inductive Scans : List Char → List Token → Prop
  | nil : Scans [] []
  | blank {c rest tokens} (blank : isBlank c = true) (scans : Scans rest tokens) :
      Scans (c :: rest) tokens
  | mark {c rest tokens} (mark : isMark c = true) (scans : Scans rest tokens) :
      Scans (c :: rest) (.mark c :: tokens)
  | word {text rest tokens} (given : text ≠ []) (solid : ∀ c ∈ text, isWordChar c = true)
      (ends : ∀ c ∈ rest.head?, isWordChar c = false) (scans : Scans rest tokens) :
      Scans (text ++ rest) (.word text :: tokens)
  | path {quote text rest tokens} (opens : isQuote quote = true) (content : Content quote text)
      (scans : Scans rest tokens) : Scans (quote :: (text ++ quote :: rest)) (.path text :: tokens)
  | comment (text : List Char) : Scans ('/' :: '/' :: text) [.comment text]

def IsToken (word : List Char) : Prop := word ≠ [] ∧ ∀ c ∈ word, isWordChar c = true

instance (word : List Char) : Decidable (IsToken word) :=
  decidable_of_iff (word ≠ [] ∧ word.all isWordChar = true)
    (and_congr_right fun _ => List.all_eq_true)

section Classes

variable {c : Char}

theorem quote_cases (quote : isQuote c = true) : c = '\'' ∨ c = '"' := by
  simpa [isQuote] using quote

theorem mark_cases (mark : isMark c = true) : c = '\x7b' ∨ c = '\x7d' ∨ c = ',' ∨ c = ';' := by
  simpa [isMark, or_assoc] using mark

theorem isBlank_of_isMark (mark : isMark c = true) : isBlank c = false := by
  rcases mark_cases mark with rfl | rfl | rfl | rfl <;> decide

theorem isBlank_of_isQuote (quote : isQuote c = true) : isBlank c = false := by
  rcases quote_cases quote with rfl | rfl <;> decide

theorem isMark_of_isBlank (blank : isBlank c = true) : isMark c = false := by
  rw [Bool.eq_false_iff]
  intro mark
  rw [isBlank_of_isMark mark] at blank
  cases blank

theorem isMark_of_isQuote (quote : isQuote c = true) : isMark c = false := by
  rcases quote_cases quote with rfl | rfl <;> decide

theorem isQuote_of_isBlank (blank : isBlank c = true) : isQuote c = false := by
  rw [Bool.eq_false_iff]
  intro quote
  rw [isBlank_of_isQuote quote] at blank
  cases blank

theorem isQuote_of_isMark (mark : isMark c = true) : isQuote c = false := by
  rcases mark_cases mark with rfl | rfl | rfl | rfl <;> decide

theorem isWordChar_spec (solid : isWordChar c = true) :
    isBlank c = false ∧ isMark c = false ∧ isQuote c = false ∧ c ≠ '/' := by
  simpa [isWordChar, and_assoc] using solid

theorem isWordChar_of_isBlank (blank : isBlank c = true) : isWordChar c = false := by
  simp [isWordChar, blank]

theorem isWordChar_of_isMark (mark : isMark c = true) : isWordChar c = false := by
  simp [isWordChar, mark]

theorem isWordChar_of_isQuote (quote : isQuote c = true) : isWordChar c = false := by
  simp [isWordChar, quote]

theorem IsToken.isWord {word : List Char} (token : IsToken word) : IsWord word :=
  ⟨token.1, fun c member => (isWordChar_spec (token.2 c member)).1⟩

theorem Scans.spaced {word rest : List Char} {tokens : List Token} (scans : Scans rest tokens)
    (token : IsToken word) : Scans (word ++ ' ' :: rest) (.word word :: tokens) :=
  .word token.1 token.2 (fun _ head => Option.mem_some.mp head ▸ by decide)
    (.blank (by decide) scans)

theorem start_blank (blank : isBlank c = true) : start c = some ([], .between) := if_pos blank

theorem start_mark (mark : isMark c = true) : start c = some ([.mark c], .between) := by
  rw [start, if_neg (by simp [isBlank_of_isMark mark]), if_pos mark]

theorem start_quote (quote : isQuote c = true) : start c = some ([], .quoted c []) := by
  rw [start, if_neg (by simp [isBlank_of_isQuote quote]),
    if_neg (by simp [isMark_of_isQuote quote]), if_pos quote]

theorem start_word (solid : isWordChar c = true) : start c = some ([], .word [c]) := by
  obtain ⟨blank, mark, quote, slash⟩ := isWordChar_spec solid
  rw [start, if_neg (by simp [blank]), if_neg (by simp [mark]), if_neg (by simp [quote]),
    if_neg (by simpa using slash)]

end Classes

section Complete

variable {text rest : List Char} {tokens : List Token}

theorem scanFrom_word (solid : ∀ c ∈ text, isWordChar c = true)
    (ends : ∀ c ∈ rest.head?, isWordChar c = false) (read : List Char) :
    scanFrom (.word read) (text ++ rest) =
      (scan rest).map (.word (read.reverse ++ text) :: ·) := by
  induction text generalizing read with
  | nil =>
      cases rest with
      | nil => simp [scan, scanFrom, finish]
      | cons c more =>
          have other : isWordChar c = false := ends c rfl
          rw [List.nil_append, scanFrom, step, if_neg (by simp [other]), scan, scanFrom, step,
            List.append_nil]
          cases start c with
          | none => rfl
          | some next => simp [Option.map_map, Function.comp_def]
  | cons c more ih =>
      have own : step (.word read) c = some ([], .word (c :: read)) :=
        if_pos (solid c List.mem_cons_self)
      have later := ih (fun d member => solid d (List.mem_cons_of_mem c member)) (c :: read)
      rw [List.cons_append, scanFrom, own, Option.bind_some, later]
      simp [Option.map_map, Function.comp_def]

theorem scanFrom_quoted {quote : Char} (content : Content quote text) (read rest : List Char) :
    scanFrom (.quoted quote read) (text ++ quote :: rest) =
      (scan rest).map (.path (read.reverse ++ text) :: ·) := by
  induction content generalizing read with
  | nil =>
      rw [List.nil_append, scanFrom, step, if_pos (beq_self_eq_true quote), List.append_nil]
      rfl
  | plain other unescaped _ ih =>
      rw [List.cons_append, scanFrom, step, if_neg (by simpa using other),
        if_neg (by simpa using unescaped), Option.bind_some, ih]
      simp [Option.map_map, Function.comp_def]
  | escape c other _ ih =>
      rw [List.cons_append, List.cons_append, scanFrom, step, if_neg (by simpa using other.symm),
        if_pos (by simp), Option.bind_some, scanFrom, step, Option.bind_some, ih]
      simp [Option.map_map, Function.comp_def]

theorem scanFrom_comment (read text : List Char) :
    scanFrom (.comment read) text = some [.comment (read.reverse ++ text)] := by
  induction text generalizing read with
  | nil => rw [scanFrom, finish, List.append_nil]
  | cons c more ih =>
      rw [scanFrom, step, Option.bind_some, ih]
      simp

theorem scan_word (given : text ≠ []) (solid : ∀ c ∈ text, isWordChar c = true)
    (ends : ∀ c ∈ rest.head?, isWordChar c = false) :
    scan (text ++ rest) = (scan rest).map (.word text :: ·) := by
  rcases List.exists_cons_of_ne_nil given with ⟨first, more, rfl⟩
  have own := start_word (solid first List.mem_cons_self)
  rw [List.cons_append, scan, scanFrom, step, own, Option.bind_some,
    scanFrom_word (fun d member => solid d (List.mem_cons_of_mem first member)) ends]
  simp [Option.map_map, Function.comp_def]

theorem scan_blank {c : Char} (blank : isBlank c = true) (rest : List Char) :
    scan (c :: rest) = scan rest := by
  rw [scan, scanFrom, step, start_blank blank]
  simp [scan]

theorem scan_mark {c : Char} (mark : isMark c = true) (rest : List Char) :
    scan (c :: rest) = (scan rest).map (.mark c :: ·) := by
  rw [scan, scanFrom, step, start_mark mark]
  rfl

theorem scan_path {quote : Char} (opens : isQuote quote = true) (content : Content quote text)
    (rest : List Char) :
    scan (quote :: (text ++ quote :: rest)) = (scan rest).map (.path text :: ·) := by
  rw [scan, scanFrom, step, start_quote opens, Option.bind_some, scanFrom_quoted content]
  simp [Option.map_map, Function.comp_def]

theorem scan_comment (text : List Char) : scan ('/' :: '/' :: text) = some [.comment text] := by
  have opens : start '/' = some ([], .slash) := by decide
  have again : step .slash '/' = some ([], .comment []) := rfl
  rw [scan, scanFrom, step, opens, Option.bind_some, scanFrom, again, Option.bind_some,
    scanFrom_comment]
  rfl

theorem Scans.scan_eq (scans : Scans text tokens) : scan text = some tokens := by
  induction scans with
  | nil => rfl
  | blank blank _ ih => rw [scan_blank blank, ih]
  | mark mark _ ih => rw [scan_mark mark, ih, Option.map_some]
  | word given solid ends _ ih => rw [scan_word given solid ends, ih, Option.map_some]
  | path opens content _ ih => rw [scan_path opens content, ih, Option.map_some]
  | comment text => exact scan_comment text

end Complete

section Sound

def Reads : Mode → List Char → List Token → Prop
  | .between, text, tokens => Scans text tokens
  | .word read, text, tokens => ∃ more rest others, text = more ++ rest ∧
      (∀ c ∈ more, isWordChar c = true) ∧ (∀ c ∈ rest.head?, isWordChar c = false) ∧
      Scans rest others ∧ tokens = .word (read.reverse ++ more) :: others
  | .quoted quote read, text, tokens => ∃ more rest others, text = more ++ quote :: rest ∧
      Content quote more ∧ Scans rest others ∧ tokens = .path (read.reverse ++ more) :: others
  | .escaped quote read, text, tokens => ∃ c more rest others, text = c :: (more ++ quote :: rest) ∧
      Content quote more ∧ Scans rest others ∧
      tokens = .path (read.reverse ++ '\\' :: c :: more) :: others
  | .slash, text, tokens => ∃ more, text = '/' :: more ∧ tokens = [.comment more]
  | .comment read, text, tokens => tokens = [.comment (read.reverse ++ text)]

theorem scans_of_start {c : Char} {rest : List Char} {ended others : List Token} {next : Mode}
    (started : start c = some (ended, next)) (reads : Reads next rest others) :
    Scans (c :: rest) (ended ++ others) := by
  unfold start at started
  split_ifs at started with blank mark quote slash
  · cases started
    exact .blank blank reads
  · cases started
    exact .mark mark reads
  · cases started
    rcases reads with ⟨more, behind, later, rfl, content, scans, rfl⟩
    exact .path quote content scans
  · cases started
    rcases reads with ⟨more, rfl, rfl⟩
    rw [beq_iff_eq.mp slash]
    exact .comment more
  · cases started
    rcases reads with ⟨more, behind, later, rfl, solid, ends, scans, rfl⟩
    have own : isWordChar c = true := by simp_all [isWordChar]
    have solids : ∀ d ∈ c :: more, isWordChar d = true := List.forall_mem_cons.mpr ⟨own, solid⟩
    exact .word (List.cons_ne_nil c more) solids ends scans

theorem reads_of_scanFrom {mode : Mode} {text : List Char} {tokens : List Token}
    (found : scanFrom mode text = some tokens) : Reads mode text tokens := by
  induction text generalizing mode tokens with
  | nil =>
      cases mode with
      | between =>
          cases found
          exact .nil
      | word read =>
          cases found
          exact ⟨[], [], [], rfl, by simp, by simp, .nil, by simp⟩
      | comment read =>
          cases found
          simp [Reads]
      | quoted quote read => cases found
      | escaped quote read => cases found
      | slash => cases found
  | cons c rest ih =>
      rw [scanFrom] at found
      obtain ⟨⟨ended, next⟩, stepped, later⟩ := Option.bind_eq_some_iff.mp found
      obtain ⟨others, scanned, rfl⟩ := Option.map_eq_some_iff.mp later
      have reads : Reads next rest others := ih scanned
      cases mode with
      | between => exact scans_of_start stepped reads
      | word read =>
          rw [step] at stepped
          split_ifs at stepped with solid
          · cases stepped
            rcases reads with ⟨more, behind, tail, rfl, solids, ends, scans, rfl⟩
            exact ⟨c :: more, behind, tail, rfl, List.forall_mem_cons.mpr ⟨solid, solids⟩, ends,
              scans, by simp⟩
          · obtain ⟨⟨own, mode⟩, started, same⟩ := Option.map_eq_some_iff.mp stepped
            cases same
            exact ⟨[], c :: rest, own ++ others, rfl, by simp, by simpa using solid,
              scans_of_start started reads, by simp⟩
      | quoted quote read =>
          rw [step] at stepped
          split_ifs at stepped with closes escapes
          · cases stepped
            rw [beq_iff_eq.mp closes]
            exact ⟨[], rest, others, rfl, .nil, reads, by simp⟩
          · cases stepped
            rcases reads with ⟨d, more, behind, tail, rfl, content, scans, rfl⟩
            rw [beq_iff_eq.mp escapes] at closes ⊢
            exact ⟨'\\' :: d :: more, behind, tail, rfl,
              .escape d (by simpa using Ne.symm (by simpa using closes)) content, scans, rfl⟩
          · cases stepped
            rcases reads with ⟨more, behind, tail, rfl, content, scans, rfl⟩
            exact ⟨c :: more, behind, tail, rfl,
              .plain (by simpa using closes) (by simpa using escapes) content, scans, by simp⟩
      | escaped quote read =>
          cases stepped
          rcases reads with ⟨more, behind, tail, rfl, content, scans, rfl⟩
          exact ⟨c, more, behind, tail, rfl, content, scans, by simp⟩
      | slash =>
          rw [step] at stepped
          split_ifs at stepped with again
          cases stepped
          rw [beq_iff_eq.mp again]
          exact ⟨rest, rfl, reads⟩
      | comment read =>
          cases stepped
          simpa [Reads] using reads

theorem scan_eq_some_iff {text : List Char} {tokens : List Token} :
    scan text = some tokens ↔ Scans text tokens :=
  ⟨reads_of_scanFrom, Scans.scan_eq⟩

end Sound

def Token.isComment : Token → Bool
  | .comment _ => true
  | _ => false

/-- The tokens without comments. -/
def codeOf (tokens : List Token) : List Token := tokens.filter (!·.isComment)

def cut : List Token → List Token
  | [] => []
  | .comment _ :: _ => [.comment []]
  | token :: rest => token :: cut rest

/-- A token without the text of a comment. -/
def Token.silent : Token → Token
  | .comment _ => .comment []
  | token => token

variable {text front back rest : List Char} {tokens others : List Token} {c : Char}

section Cut

@[simp] theorem cut_nil : cut [] = [] := rfl

@[simp] theorem cut_word (word : List Char) (rest : List Token) :
    cut (.word word :: rest) = .word word :: cut rest := rfl

@[simp] theorem cut_mark (c : Char) (rest : List Token) :
    cut (.mark c :: rest) = .mark c :: cut rest := rfl

@[simp] theorem cut_path (path : List Char) (rest : List Token) :
    cut (.path path :: rest) = .path path :: cut rest := rfl

@[simp] theorem cut_comment (comment : List Char) (rest : List Token) :
    cut (.comment comment :: rest) = [.comment []] := rfl

theorem cut_append {tokens : List Token} (code : ∀ token ∈ tokens, token.isComment = false)
    (rest : List Token) : cut (tokens ++ rest) = tokens ++ cut rest := by
  induction tokens with
  | nil => rfl
  | cons token more ih =>
      have later := ih fun other member => code other (List.mem_cons_of_mem token member)
      cases token with
      | comment text => exact absurd (code _ List.mem_cons_self) (by simp [Token.isComment])
      | _ => simpa using later

/-- What stands behind counts as far as it is not cut. -/
theorem cut_append_cut (tokens rest : List Token) :
    cut (tokens ++ cut rest) = cut (tokens ++ rest) := by
  induction tokens with
  | nil =>
      rw [List.nil_append, List.nil_append]
      induction rest with
      | nil => rfl
      | cons token more ih => cases token <;> simp [ih]
  | cons token more ih => cases token <;> simp [ih]

theorem cut_silent (tokens : List Token) : cut (tokens.map Token.silent) = cut tokens := by
  induction tokens with
  | nil => rfl
  | cons token rest ih => cases token <;> simp [Token.silent, ih]

@[simp] theorem codeOf_nil : codeOf [] = [] := rfl

@[simp] theorem codeOf_word (word : List Char) (rest : List Token) :
    codeOf (.word word :: rest) = .word word :: codeOf rest := rfl

@[simp] theorem codeOf_mark (c : Char) (rest : List Token) :
    codeOf (.mark c :: rest) = .mark c :: codeOf rest := rfl

@[simp] theorem codeOf_path (path : List Char) (rest : List Token) :
    codeOf (.path path :: rest) = .path path :: codeOf rest := rfl

@[simp] theorem codeOf_comment (comment : List Char) (rest : List Token) :
    codeOf (.comment comment :: rest) = codeOf rest := rfl

@[simp] theorem codeOf_append (tokens rest : List Token) :
    codeOf (tokens ++ rest) = codeOf tokens ++ codeOf rest :=
  List.filter_append tokens rest

theorem codeOf_silent (tokens : List Token) : codeOf (tokens.map Token.silent) = codeOf tokens := by
  induction tokens with
  | nil => rfl
  | cons token rest ih => cases token <;> simp [Token.silent, ih]

end Cut

section Joined

/-- Behind a blank the tokens of another text follow, unless a comment swallows them. -/
theorem Scans.append_blank (scans : Scans front tokens) (blank : isBlank c = true)
    (behind : Scans back others) :
    ∃ all, Scans (front ++ c :: back) all ∧ cut all = cut (tokens ++ others) := by
  induction scans with
  | nil => exact ⟨others, .blank blank behind, rfl⟩
  | blank own _ ih =>
      rcases ih with ⟨all, scans, same⟩
      exact ⟨all, .blank own scans, same⟩
  | @mark d _ _ own _ ih =>
      rcases ih with ⟨all, scans, same⟩
      exact ⟨.mark d :: all, .mark own scans, by simp [same]⟩
  | @word word rest _ given solid ends _ ih =>
      rcases ih with ⟨all, scans, same⟩
      refine ⟨.word word :: all, ?_, by simp [same]⟩
      rw [List.append_assoc]
      refine .word given solid ?_ scans
      cases rest with
      | nil => simpa using isWordChar_of_isBlank blank
      | cons d more => exact ends
  | @path quote path _ _ opens content _ ih =>
      rcases ih with ⟨all, scans, same⟩
      refine ⟨.path path :: all, ?_, by simp [same]⟩
      rw [List.cons_append, List.append_assoc, List.cons_append]
      exact .path opens content scans
  | comment own => exact ⟨[.comment (own ++ c :: back)], .comment _, rfl⟩

inductive ScansAll : List (List Char) → List Token → Prop
  | nil : ScansAll [] []
  | cons {line rest tokens others} (scans : Scans line tokens) (scansAll : ScansAll rest others) :
      ScansAll (line :: rest) (tokens ++ others)

theorem ScansAll.join {lines : List (List Char)} (scansAll : ScansAll lines tokens) :
    ∃ all, Scans ([' '].intercalate lines) all ∧ cut all = cut tokens := by
  induction scansAll with
  | nil => exact ⟨[], .nil, rfl⟩
  | @cons line rest tokens others scans _ ih =>
      rcases ih with ⟨all, joined, same⟩
      cases rest with
      | nil =>
          rename_i later
          cases later
          exact ⟨tokens, by simpa using scans, by rw [List.append_nil]⟩
      | cons second more =>
          rcases scans.append_blank (by decide : isBlank ' ' = true) joined
            with ⟨whole, found, cuts⟩
          refine ⟨whole, ?_, ?_⟩
          · rw [List.intercalate_cons_cons, List.append_assoc]
            exact found
          · rw [cuts, ← cut_append_cut, same, cut_append_cut]

end Joined

section Trimmed

theorem dropTrailing_cons (c : Char) (rest : List Char) :
    dropTrailing isBlank (c :: rest) =
      if dropTrailing isBlank rest = [] ∧ isBlank c = true then []
      else c :: dropTrailing isBlank rest := by
  unfold dropTrailing
  rw [List.reverse_cons, List.dropWhile_append]
  by_cases nothing : rest.reverse.dropWhile isBlank = []
  · by_cases blank : isBlank c = true
    · simp [nothing, blank]
    · simp [nothing, blank]
  · simp [nothing]

theorem dropTrailing_solid (solid : isBlank c = false) (rest : List Char) :
    dropTrailing isBlank (c :: rest) = c :: dropTrailing isBlank rest := by
  rw [dropTrailing_cons, if_neg (by simp [solid])]

theorem dropTrailing_append_solid (solid : isBlank c = false) (front rest : List Char) :
    dropTrailing isBlank (front ++ c :: rest) = front ++ c :: dropTrailing isBlank rest := by
  induction front with
  | nil => exact dropTrailing_solid solid rest
  | cons d more ih =>
      rw [List.cons_append, dropTrailing_cons, ih, if_neg (by simp)]
      rfl

theorem head?_dropTrailing (rest : List Char) :
    ∀ d ∈ (dropTrailing isBlank rest).head?, d ∈ rest.head? := by
  cases rest with
  | nil => simp [dropTrailing]
  | cons d more =>
      rw [dropTrailing_cons]
      split
      · simp
      · simp

/-- Blanks at the end belong to no token but a comment. -/
theorem Scans.without_trailing (scans : Scans text tokens) :
    ∃ others, Scans (dropTrailing isBlank text) others ∧
      others.map Token.silent = tokens.map Token.silent := by
  induction scans with
  | nil => exact ⟨[], .nil, rfl⟩
  | @blank d rest _ blank _ ih =>
      rcases ih with ⟨others, scans, same⟩
      rw [dropTrailing_cons]
      split
      · rename_i nothing
        rw [nothing.1] at scans
        exact ⟨others, scans, same⟩
      · exact ⟨others, .blank blank scans, same⟩
  | @mark d _ _ mark _ ih =>
      rcases ih with ⟨others, scans, same⟩
      rw [dropTrailing_solid (isBlank_of_isMark mark)]
      exact ⟨.mark d :: others, .mark mark scans, by simp [same]⟩
  | @word word rest _ given solid ends _ ih =>
      rcases ih with ⟨others, scans, same⟩
      have kept : dropTrailing isBlank (word ++ rest) = word ++ dropTrailing isBlank rest := by
        rcases List.eq_nil_or_concat word with nothing | ⟨front, last, rfl⟩
        · exact absurd nothing given
        · have own := (isWordChar_spec (solid last (by simp))).1
          simpa using dropTrailing_append_solid own front rest
      rw [kept]
      exact ⟨.word word :: others,
        .word given solid (fun d member => ends d (head?_dropTrailing rest d member)) scans,
        by simp [same]⟩
  | @path quote path _ _ opens content _ ih =>
      rcases ih with ⟨others, scans, same⟩
      have solid := isBlank_of_isQuote opens
      rw [dropTrailing_solid solid, dropTrailing_append_solid solid]
      exact ⟨.path path :: others, .path opens content scans, by simp [same]⟩
  | comment own =>
      rw [dropTrailing_solid (by decide), dropTrailing_solid (by decide)]
      exact ⟨_, .comment _, rfl⟩

theorem Scans.without_leading (scans : Scans text tokens) :
    Scans (text.dropWhile isBlank) tokens := by
  induction scans with
  | blank blank _ ih => rwa [List.dropWhile_cons_of_pos blank]
  | nil => exact .nil
  | mark mark scans _ =>
      rw [List.dropWhile_cons_of_neg (by simp [isBlank_of_isMark mark])]
      exact .mark mark scans
  | @word word rest _ given solid ends scans _ =>
      rcases List.exists_cons_of_ne_nil given with ⟨first, more, rfl⟩
      have own := (isWordChar_spec (solid first List.mem_cons_self)).1
      rw [List.cons_append, List.dropWhile_cons_of_neg (by simp [own]), ← List.cons_append]
      exact .word given solid ends scans
  | path opens content scans _ =>
      rw [List.dropWhile_cons_of_neg (by simp [isBlank_of_isQuote opens])]
      exact .path opens content scans
  | comment own => exact .comment own

theorem Scans.trim (scans : Scans text tokens) :
    ∃ others, Scans (trim text) others ∧ others.map Token.silent = tokens.map Token.silent :=
  scans.without_leading.without_trailing

theorem ScansAll.trim {lines : List (List Char)} (scansAll : ScansAll lines tokens) :
    ∃ others, ScansAll (lines.map Text.trim) others ∧
      others.map Token.silent = tokens.map Token.silent := by
  induction scansAll with
  | nil => exact ⟨[], .nil, rfl⟩
  | cons scans _ ih =>
      rcases scans.trim with ⟨own, trimmed, same⟩
      rcases ih with ⟨others, later, same'⟩
      exact ⟨own ++ others, .cons trimmed later, by simp [same, same']⟩

end Trimmed

section Squeezed

def squeeze (text : List Char) : List Char := [' '].intercalate (words text)

def behind : List Char → List Char
  | [] => []
  | c :: rest =>
    if isBlank c then if words rest = [] then [] else ' ' :: squeeze rest else squeeze (c :: rest)

theorem words_append_blank (blank : isBlank c = true) (front back : List Char) :
    words (front ++ c :: back) = words front ++ words back := by
  rw [words, splitWhere_append blank, List.filter_append]
  rfl

theorem words_blank (blank : isBlank c = true) (rest : List Char) :
    words (c :: rest) = words rest :=
  words_append_blank blank [] rest

theorem squeeze_blank (blank : isBlank c = true) (rest : List Char) :
    squeeze (c :: rest) = squeeze rest := by
  rw [squeeze, words_blank blank, squeeze]

/-- Of two characters that are no blanks the second one belongs to the word of the first. -/
theorem words_solid {d : Char} (solid : isBlank c = false) (solid' : isBlank d = false)
    (rest : List Char) : ∃ word others, words (d :: rest) = word :: others ∧
      words (c :: d :: rest) = (c :: word) :: others := by
  obtain ⟨head, tail, shape⟩ : ∃ head tail,
      splitWhere isBlank (d :: rest) = (d :: head) :: tail := by
    rw [splitWhere, if_neg (Bool.eq_false_iff.mp solid')]
    cases splitWhere isBlank rest with
    | nil => exact ⟨[], [], rfl⟩
    | cons head tail => exact ⟨head, tail, rfl⟩
  have glued : splitWhere isBlank (c :: d :: rest) = (c :: d :: head) :: tail := by
    rw [splitWhere, if_neg (Bool.eq_false_iff.mp solid), shape]
  exact ⟨d :: head, tail.filter (!·.isEmpty), by simp [words, shape], by simp [words, glued]⟩

theorem squeeze_solid (solid : isBlank c = false) (rest : List Char) :
    squeeze (c :: rest) = c :: behind rest := by
  have alone : IsWord [c] := ⟨by simp, by simpa using solid⟩
  cases rest with
  | nil => simp [squeeze, behind, words_of_isWord alone]
  | cons d more =>
      by_cases blank : isBlank d = true
      · have split : words (c :: d :: more) = [c] :: words more := by
          have parts := words_append_blank blank [c] more
          rwa [words_of_isWord alone] at parts
        rw [squeeze, split, behind, if_pos blank]
        by_cases last : words more = []
        · simp [last]
        · rw [List.intercalate_cons_of_ne_nil last, if_neg last]
          rfl
      · have solid' : isBlank d = false := by simpa using blank
        rcases words_solid solid solid' more with ⟨word, others, own, glued⟩
        rw [squeeze, glued, behind, if_neg blank, squeeze, own]
        cases others <;> simp [List.intercalate_cons_cons]

theorem behind_solid (solid : isBlank c = false) (rest : List Char) :
    behind (c :: rest) = c :: behind rest := by
  rw [behind, if_neg (by simp [solid]), squeeze_solid solid]

theorem behind_append_solid (solid : ∀ c ∈ front, isBlank c = false) (rest : List Char) :
    behind (front ++ rest) = front ++ behind rest := by
  induction front with
  | nil => rfl
  | cons c more ih =>
      rw [List.cons_append, behind_solid (solid c List.mem_cons_self),
        ih fun d member => solid d (List.mem_cons_of_mem c member), List.cons_append]

def SingleSpaced (text : List Char) : Prop :=
  (∀ c ∈ text, isBlank c = true → c = ' ') ∧ ¬ [' ', ' '] <:+: text

instance (text : List Char) : Decidable (SingleSpaced text) :=
  decidable_of_iff (text.all (fun c => decide (isBlank c = true → c = ' ')) = true ∧
    ¬ [' ', ' '] <:+: text)
    (and_congr_left fun _ => by simp only [List.all_eq_true, decide_eq_true_eq])

theorem SingleSpaced.of_infix (single : SingleSpaced text) (inside : front <:+: text) :
    SingleSpaced front :=
  ⟨fun c member => single.1 c (inside.subset member), fun held => single.2 (held.trans inside)⟩

theorem SingleSpaced.tail (single : SingleSpaced (c :: text)) : SingleSpaced text :=
  single.of_infix (List.suffix_cons c text).isInfix

/-- Up to a character that is no blank such a text stays. -/
theorem behind_single (single : SingleSpaced text) (solid : isBlank c = false) (rest : List Char) :
    behind (text ++ c :: rest) = text ++ c :: behind rest := by
  induction text with
  | nil => exact behind_solid solid rest
  | cons d more ih =>
      have later := ih single.tail
      by_cases blank : isBlank d = true
      · have space : d = ' ' := single.1 d List.mem_cons_self blank
        have next : ∃ e others, more ++ c :: rest = e :: others ∧ isBlank e = false := by
          cases more with
          | nil => exact ⟨c, rest, rfl, solid⟩
          | cons e others =>
              refine ⟨e, others ++ c :: rest, rfl, ?_⟩
              rw [Bool.eq_false_iff]
              intro twice
              have second : e = ' ' := single.1 e (by simp) twice
              rw [space, second] at single
              exact single.2 ⟨[], others, rfl⟩
        rcases next with ⟨e, others, shape, solid'⟩
        have given : words (e :: others) ≠ [] := by
          intro nothing
          have left := squeeze_solid solid' others
          rw [squeeze, nothing] at left
          cases left
        rw [List.cons_append, List.cons_append, ← later, shape, behind, if_pos blank, if_neg given,
          squeeze_solid solid', behind_solid solid', space]
      · rw [List.cons_append, behind_solid (by simpa using blank), later, List.cons_append]

theorem length_squeeze_le (text : List Char) :
    (squeeze text).length ≤ text.length ∧ (behind text).length ≤ text.length := by
  induction text with
  | nil => exact ⟨le_refl 0, le_refl 0⟩
  | cons c rest ih =>
      by_cases blank : isBlank c = true
      · rw [squeeze_blank blank, behind, if_pos blank]
        split <;> simp [ih.1] <;> omega
      · have solid : isBlank c = false := by simpa using blank
        simp [squeeze_solid solid, behind_solid solid, ih.2]

theorem blank_squeeze (text : List Char) :
    (∀ c ∈ squeeze text, isBlank c = true → c = ' ') ∧
      ∀ c ∈ behind text, isBlank c = true → c = ' ' := by
  induction text with
  | nil => exact ⟨List.forall_mem_nil _, List.forall_mem_nil _⟩
  | cons c rest ih =>
      by_cases blank : isBlank c = true
      · rw [squeeze_blank blank, behind, if_pos blank]
        refine ⟨ih.1, ?_⟩
        split
        · simp
        · exact List.forall_mem_cons.mpr ⟨fun _ => rfl, ih.1⟩
      · have solid : isBlank c = false := by simpa using blank
        rw [squeeze_solid solid, behind_solid solid]
        have own : ∀ d ∈ c :: behind rest, isBlank d = true → d = ' ' :=
          List.forall_mem_cons.mpr ⟨fun held => absurd held blank, ih.2⟩
        exact ⟨own, own⟩

theorem singleSpaced_squeeze (text : List Char) : SingleSpaced (squeeze text) := by
  refine ⟨(blank_squeeze text).1, ?_⟩
  rintro ⟨front, back, split⟩
  rw [List.append_assoc] at split
  have words_front : words (squeeze text) = words front ++ words back := by
    rw [← split]
    exact (words_append_space front (' ' :: back)).trans
      (congrArg _ (words_append_space [] back))
  have same : squeeze (front ++ ' ' :: back) = squeeze text := by
    rw [squeeze, words_append_space, ← words_front, squeeze,
      words_join fun word member => isWord_of_mem_words member]
  have bound := (length_squeeze_le (front ++ ' ' :: back)).1
  rw [same, ← split] at bound
  simp only [List.length_append, List.length_cons, List.length_nil] at bound
  omega

theorem head?_behind (rest : List Char) :
    ∀ c ∈ (behind rest).head?, isBlank c = true ∨ c ∈ rest.head? := by
  cases rest with
  | nil => simp [behind]
  | cons d more =>
      by_cases blank : isBlank d = true
      · rw [behind, if_pos blank]
        split
        · simp
        · intro c member
          obtain rfl : ' ' = c := by simpa using member
          exact .inl (by decide)
      · rw [behind_solid (by simpa using blank)]
        exact fun c member => .inr member

theorem Scans.behind_of_squeeze (scans : Scans (squeeze text) tokens) :
    Scans (behind text) tokens := by
  cases text with
  | nil => exact scans
  | cons c rest =>
      by_cases blank : isBlank c = true
      · rw [squeeze_blank blank] at scans
        rw [behind, if_pos blank]
        split
        · rename_i nothing
          rwa [squeeze, nothing] at scans
        · exact .blank (by decide) scans
      · rwa [behind, if_neg blank]

theorem Scans.squeeze (scans : Scans text tokens)
    (single : ∀ path, .path path ∈ tokens → SingleSpaced path) :
    ∃ others, Scans (squeeze text) others ∧ others.map Token.silent = tokens.map Token.silent := by
  induction scans with
  | nil => exact ⟨[], .nil, rfl⟩
  | blank blank _ ih =>
      rw [squeeze_blank blank]
      exact ih single
  | @mark d rest tokens mark _ ih =>
      rcases ih fun path member => single path (List.mem_cons_of_mem _ member)
        with ⟨others, scans, same⟩
      rw [squeeze_solid (isBlank_of_isMark mark)]
      exact ⟨.mark d :: others, .mark mark scans.behind_of_squeeze, by simp [same]⟩
  | @word word rest tokens given solid ends _ ih =>
      rcases ih fun path member => single path (List.mem_cons_of_mem _ member)
        with ⟨others, scans, same⟩
      have solids : ∀ c ∈ word, isBlank c = false :=
        fun c member => (isWordChar_spec (solid c member)).1
      have kept : Layout.squeeze (word ++ rest) = word ++ behind rest := by
        rcases List.exists_cons_of_ne_nil given with ⟨first, more, rfl⟩
        rw [List.cons_append, squeeze_solid (solids first List.mem_cons_self),
          behind_append_solid fun c member => solids c (List.mem_cons_of_mem first member),
          List.cons_append]
      have ends' : ∀ c ∈ (behind rest).head?, isWordChar c = false := by
        intro c member
        rcases head?_behind rest c member with blank | own
        · exact isWordChar_of_isBlank blank
        · exact ends c own
      rw [kept]
      exact ⟨.word word :: others, .word given solid ends' scans.behind_of_squeeze, by simp [same]⟩
  | @path quote path rest tokens opens content _ ih =>
      rcases ih fun path member => single path (List.mem_cons_of_mem _ member)
        with ⟨others, scans, same⟩
      have solid := isBlank_of_isQuote opens
      rw [squeeze_solid solid, behind_single (single path List.mem_cons_self) solid]
      exact ⟨.path path :: others, .path opens content scans.behind_of_squeeze, by simp [same]⟩
  | comment own =>
      rw [squeeze_solid (by decide), behind_solid (by decide)]
      exact ⟨_, .comment _, rfl⟩

end Squeezed

end TypedClient.Layout

namespace TypedClient.Text

def isBlank (c : Char) : Bool :=
  let n := c.toNat
  (9 ≤ n && n ≤ 13) || (28 ≤ n && n ≤ 32) || n == 0x85 || n == 0xA0 || n == 0x1680 ||
    (0x2000 ≤ n && n ≤ 0x200A) || n == 0x2028 || n == 0x2029 || n == 0x202F || n == 0x205F ||
    n == 0x3000

def dropTrailing {α : Type} (p : α → Bool) (items : List α) : List α :=
  (items.reverse.dropWhile p).reverse

def trimWhere {α : Type} (p : α → Bool) (items : List α) : List α :=
  dropTrailing p (items.dropWhile p)

def trimEnd (text : List Char) : List Char := dropTrailing isBlank text

def trim (text : List Char) : List Char := trimWhere isBlank text

def splitWhere {α : Type} (p : α → Bool) : List α → List (List α)
  | [] => [[]]
  | c :: rest =>
    if p c then [] :: splitWhere p rest
    else
      match splitWhere p rest with
      | [] => [[c]]
      | head :: tail => (c :: head) :: tail

def words (text : List Char) : List (List Char) :=
  (splitWhere isBlank text).filter (!·.isEmpty)

theorem splitWhere_ne_nil {α : Type} (p : α → Bool) (items : List α) : splitWhere p items ≠ [] := by
  cases items with
  | nil => simp [splitWhere]
  | cons c rest => rw [splitWhere]; split <;> (try split) <;> simp

end TypedClient.Text

import TypedClient.Yaml.Meaning

namespace TypedClient.Yaml

def isAllowed (c : Char) : Bool :=
  let n := c.toNat
  n == 9 || n == 10 || n == 13 || (32 ≤ n && n ≤ 126) || n == 0x85 ||
    (0xA0 ≤ n && n ≤ 0xFFFD) || 0x10000 ≤ n

/-- The value that the whole text spells; null if it spells nothing. -/
def read (text : String) : Except Problem Value := do
  let chars := text.toList
  let allowed := chars.takeWhile isAllowed
  if let some c := chars[allowed.length]? then throw (.stray c allowed.length)
  match ← nodes (tokens chars) with
  | none => return .null
  | some (root, nodes) => valueOf root nodes

end TypedClient.Yaml

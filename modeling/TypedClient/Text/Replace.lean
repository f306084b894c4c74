namespace TypedClient.Text

def replaceFrom (old new : List Char) : Nat → List Char → List Char
  | _, [] => []
  | pending + 1, _ :: rest => replaceFrom old new pending rest
  | 0, c :: rest =>
    if old.isPrefixOf (c :: rest) then new ++ replaceFrom old new (old.length - 1) rest
    else c :: replaceFrom old new 0 rest

/-- Replaces the occurrences of `old`, a text that is not empty, from the left. -/
def replaceAll (old new text : List Char) : List Char := replaceFrom old new 0 text

def contains (part : List Char) : List Char → Bool
  | [] => part.isEmpty
  | c :: rest => part.isPrefixOf (c :: rest) || contains part rest

def cut (separator : Char) (text : List Char) : List Char × List Char :=
  (text.takeWhile (· != separator), (text.dropWhile (· != separator)).drop 1)

def afterLast (p : Char → Bool) (text : List Char) : List Char :=
  (text.reverse.takeWhile (!p ·)).reverse

def beforeLast (p : Char → Bool) (text : List Char) : List Char :=
  ((text.reverse.dropWhile (!p ·)).drop 1).reverse

end TypedClient.Text

namespace TypedClient

def replaceText (old new text : String) : String :=
  String.ofList (Text.replaceAll old.toList new.toList text.toList)

def containsText (part text : String) : Bool := Text.contains part.toList text.toList

end TypedClient

import FeedStore.Json.Literal

/-!
# Arrays of texts

The tags of an entry are stored as a JSON array of string literals. `encode` writes it without any
space; `decode?` reads any array of literals that JSON allows and nothing else.
-/

namespace FeedStore.Json.TextArray

/-- The array without space, its items separated by commas. -/
def encode (items : List String) : String :=
  "[" ++ ",".intercalate (items.map Json.encode) ++ "]"

/-- Reads literals separated by commas up to the closing bracket, at most `n` of them. `acc` holds the
items read so far, the last one first. -/
def readItems : Nat → List String → List Char → Option (List String × List Char)
  | 0, _, _ => none
  | n + 1, acc, cs =>
    match readLiteral cs with
    | none => none
    | some (item, rest) =>
      match skipSpace rest with
      | ',' :: rest => readItems n (item :: acc) rest
      | ']' :: rest => some ((item :: acc).reverse, rest)
      | _ => none

/-- Reads an array of literals with space in front of it. -/
def readArray (cs : List Char) : Option (List String × List Char) :=
  match skipSpace cs with
  | '[' :: rest =>
    match skipSpace rest with
    | ']' :: rest => some ([], rest)
    | rest => readItems rest.length [] rest
  | _ => none

/-- The items of a text that is an array of literals and nothing else. -/
def decode? (text : String) : Option (List String) :=
  match readArray text.toList with
  | some (items, rest) => if atEnd rest then some items else none
  | none => none

end FeedStore.Json.TextArray

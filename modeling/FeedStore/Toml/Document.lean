import FeedStore.Toml.Scalar
import FeedStore.Toml.Text
import FeedStore.Toml.Value

/-!
# Reading a TOML document

A document is read line by line: a line is empty, a comment, a header, or a key with its value, and each
of the last two may end in a comment. Values nest at most 79 deep, and a dotted key has at most 79
parts. `Document.parse?` gives the table that a text stands for, and nothing for a text that is no
document.
-/

namespace FeedStore.Toml

/-- Arrays and inline tables nest less deeply than this, and a dotted key has fewer parts. -/
def nestingLimit : Nat := 80

namespace Document

/-! ## Space and comments -/

def isSpace (c : Char) : Bool := c == ' ' || c == '\t'

def isCommentChar (c : Char) : Bool := c == '\t' || 0x20 ≤ c.toNat

def skipSpace (cs : List Char) : List Char := cs.dropWhile isSpace

def skipComment : List Char → List Char
  | '#' :: cs => cs.dropWhile isCommentChar
  | cs => cs

/-- What follows the line break that stands here. -/
def afterBreak? : List Char → Option (List Char)
  | '\n' :: cs => some cs
  | '\r' :: '\n' :: cs => some cs
  | _ => none

/-- What follows the rest of a line, in which only space and a comment may stand. -/
def endLine? (cs : List Char) : Option (List Char) :=
  match skipComment (skipSpace cs) with
  | [] => some []
  | cs => afterBreak? cs

theorem length_of_afterBreak? {cs rest : List Char} (h : afterBreak? cs = some rest) :
    rest.length < cs.length := by
  unfold afterBreak? at h
  split at h
  · cases h
    exact Nat.lt_succ_self _
  · cases h
    simp only [List.length_cons]
    omega
  · cases h

/-- The characters without space, line breaks and comments in front. A comment ends in a line break; one
that does not is left where it is. -/
def skipAllSpace : List Char → List Char
  | ' ' :: cs => skipAllSpace cs
  | '\t' :: cs => skipAllSpace cs
  | '\n' :: cs => skipAllSpace cs
  | '\r' :: '\n' :: cs => skipAllSpace cs
  | '#' :: cs =>
    match h : afterBreak? (cs.dropWhile isCommentChar) with
    | some rest =>
      have : rest.length < cs.length :=
        Nat.lt_of_lt_of_le (length_of_afterBreak? h) (List.dropWhile_suffix _).length_le
      skipAllSpace rest
    | none => '#' :: cs
  | cs => cs
  termination_by cs => cs.length

/-! ## Keys -/

def isBareKeyChar (c : Char) : Bool :=
  ('A' ≤ c && c ≤ 'Z') || ('a' ≤ c && c ≤ 'z') || ('0' ≤ c && c ≤ '9') || c == '-' || c == '_'

def readKeyPart? (cs : List Char) : Option (String × List Char) :=
  match cs with
  | '"' :: _ | '\'' :: _ => Text.readLine? cs
  | _ =>
    match cs.takeWhile isBareKeyChar with
    | [] => none
    | word => some (String.ofList word, cs.dropWhile isBareKeyChar)

/-- Reads the parts of a dotted key, with space around each; at most `parts` of them. -/
def readKeyParts : Nat → List Char → Option (List String × List Char)
  | 0, _ => none
  | parts + 1, cs => do
    let (part, rest) ← readKeyPart? (skipSpace cs)
    match skipSpace rest with
    | '.' :: rest =>
      let (more, rest) ← readKeyParts parts rest
      some (part :: more, rest)
    | rest => some ([part], rest)

/-- A dotted key: the path in front of its last part, and that part. -/
structure Key where
  path : List String
  name : String

def readKey? (cs : List Char) : Option (Key × List Char) := do
  let (parts, rest) ← readKeyParts (nestingLimit - 1) cs
  let name ← parts.getLast?
  some (⟨parts.dropLast, name⟩, rest)

def expect? (c : Char) : List Char → Option (List Char)
  | d :: cs => if d = c then some cs else none
  | [] => none

/-! ## Values -/

/-- A way to read a value from the front of the characters. -/
abbrev ValueReader : Type := List Char → Option (Value × List Char)

def isWordChar (c : Char) : Bool := isBareKeyChar c || c == '+' || c == '.' || c == ':'

/-- The value of a bare word. -/
def ofScalar : Scalar → Value
  | .integer n => .integer n
  | .decimal => .decimal
  | .boolean b => .boolean b
  | .moment => .moment

/-- Reads a bare word. A time may follow a date after a single space. -/
def readWord : ValueReader := fun cs => do
  let word := cs.takeWhile isWordChar
  let rest := cs.dropWhile isWordChar
  let value ← Scalar.ofWord? word
  match rest with
  | ' ' :: more =>
    if Scalar.isDate word && (more.head?.any Scalar.isDigit) then
      if Scalar.isTimeOfDate (more.takeWhile isWordChar) then
        some (.moment, more.dropWhile isWordChar)
      else none
    else some (ofScalar value, rest)
  | _ => some (ofScalar value, rest)

/-- Reads the items of an array up to its closing bracket. `acc` holds those read so far, the last one
first; `items` bounds the number of those to come. -/
def readItems (readValue : ValueReader) : Nat → List Value → ValueReader
  | 0, _ => fun _ => none
  | items + 1, acc => fun cs =>
    match skipAllSpace cs with
    | ']' :: rest => some (.array acc.reverse, rest)
    | cs =>
      match readValue cs with
      | none => none
      | some (value, rest) =>
        match skipAllSpace rest with
        | ',' :: rest => readItems readValue items (value :: acc) rest
        | ']' :: rest => some (.array (value :: acc).reverse, rest)
        | _ => none

/-- Reads a key and its value within a line. -/
def readPair? (readValue : ValueReader) (cs : List Char) : Option ((Key × Value) × List Char) := do
  let (key, rest) ← readKey? cs
  let rest ← expect? '=' rest
  let (value, rest) ← readValue (skipSpace rest)
  some ((key, value), rest)

/-- Reads the pairs of an inline table up to its closing brace and adds them to `es`; `pairs` bounds
their number. -/
def readPairs (readValue : ValueReader) : Nat → Entries → ValueReader
  | 0, _ => fun _ => none
  | pairs + 1, es => fun cs =>
    match readPair? readValue cs with
    | none => none
    | some ((key, value), rest) =>
      match es.addDotted key.path key.name value with
      | none => none
      | some es =>
        match skipSpace rest with
        | ',' :: rest => readPairs readValue pairs es rest
        | '\x7d' :: rest => some (.table .inline es, rest)
        | _ => none

/-- Reads a value in which others nest less than `depth` deep. -/
def readValue : Nat → ValueReader
  | 0, _ => none
  | depth + 1, cs =>
    match cs with
    | '"' :: _ | '\'' :: _ => (Text.read? cs).map fun r => (.text r.1, r.2)
    | '[' :: rest => if depth = 0 then none else readItems (readValue depth) (rest.length + 1) [] rest
    | '\x7b' :: rest =>
      if depth = 0 then none
      else
        match skipSpace rest with
        | '\x7d' :: rest => some (.table .inline [], rest)
        | rest => readPairs (readValue depth) (rest.length + 1) [] rest
    | _ => readWord cs

/-! ## Lines -/

/-- What has been read: the whole table, and the path of the table that the next lines belong to. -/
structure Reading where
  root : Entries := []
  current : List String := []

namespace Reading

/-- Changes the table at the end of a path of headers. -/
def changeAt (r : Reading) (path : List String) (change : Entries → Option Entries) :
    Option Entries :=
  Entries.within false (fun _ => change) path .header r.root

/-- Adds a value under a dotted key to the current table. -/
def add (r : Reading) (key : Key) (value : Value) : Option Reading := do
  let root ← r.changeAt r.current (·.addDotted key.path key.name value)
  some { r with root }

/-- Goes on with the table of a header. -/
def openTable (r : Reading) (key : Key) : Option Reading := do
  let root ← r.changeAt key.path (·.openTable key.name)
  some ⟨root, key.path ++ [key.name]⟩

/-- Goes on with another table of a repeated header. -/
def openNext (r : Reading) (key : Key) : Option Reading := do
  let root ← r.changeAt key.path (·.openNext key.name)
  some ⟨root, key.path ++ [key.name]⟩

/-- Reads one line that is not empty. -/
def line (r : Reading) (cs : List Char) : Option (Reading × List Char) :=
  match cs with
  | '[' :: '[' :: rest => do
    let (key, rest) ← readKey? rest
    let rest ← expect? ']' rest
    let rest ← expect? ']' rest
    some (← r.openNext key, ← endLine? rest)
  | '[' :: rest => do
    let (key, rest) ← readKey? rest
    let rest ← expect? ']' rest
    some (← r.openTable key, ← endLine? rest)
  | _ => do
    let ((key, value), rest) ← readPair? (readValue nestingLimit) cs
    let rest ← endLine? rest
    some (← r.add key value, rest)

/-- Reads all lines; `lines` bounds their number. -/
def all : Nat → Reading → List Char → Option Reading
  | 0, r, cs => if cs = [] then some r else none
  | lines + 1, r, cs =>
    match skipAllSpace cs with
    | [] => some r
    | '#' :: cs => if skipComment ('#' :: cs) = [] then some r else none
    | cs =>
      match r.line cs with
      | some (r, rest) => all lines r rest
      | none => none

end Reading

/-- The table that a text stands for. A byte order mark in front does not count. -/
def parse? (text : String) : Option Entries :=
  let cs := match text.toList with
    | '\ufeff' :: cs => cs
    | cs => cs
  (Reading.all (cs.length + 1) {} cs).map (·.root)

end Document

end FeedStore.Toml

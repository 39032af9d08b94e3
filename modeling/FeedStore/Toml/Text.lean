import FeedStore.Text.Hex

/-!
# Texts in TOML

A text stands in double quotes, in which a backslash starts an escape, or in single quotes, in which
every character stands for itself. Three quotes in a row begin a text that may go over several lines;
a line break right behind them does not count, a line break is always read as a line feed, and up to two
quotes may stand right in front of the closing three.
-/

namespace FeedStore.Toml.Text

/-- The character may stand in a text on one line as it is. Quotes and backslashes are dealt with
before. -/
def isPlain (c : Char) : Bool := c == '\t' || (0x20 ≤ c.toNat && c.toNat != 0x7f)

/-- The character that a letter behind a backslash stands for. -/
def escape? : Char → Option Char
  | 'b' => some '\x08'
  | 't' => some '\t'
  | 'n' => some '\n'
  | 'f' => some '\x0c'
  | 'r' => some '\r'
  | '"' => some '"'
  | '\\' => some '\\'
  | _ => none

/-- The character with a number; there is none for half of a surrogate pair or beyond the last one. -/
def charOf? (n : Nat) : Option Char :=
  if 0xd800 ≤ n ∧ n < 0xe000 ∨ 0x110000 ≤ n then none else some (Char.ofNat n)

/-- The character with a number of four digits. -/
def charOfFour? (a b c d : Char) : Option Char := (Text.hexQuad? a b c d).bind charOf?

/-- The character with a number of eight digits. -/
def charOfEight? (a b c d e f g h : Char) : Option Char := do
  let high ← Text.hexQuad? a b c d
  let low ← Text.hexQuad? e f g h
  charOf? (high * 0x10000 + low)

/-- Reads a text up to its closing double quote. `acc` holds what was read, the last character first. -/
def readBasic (acc : List Char) : List Char → Option (List Char × List Char)
  | [] => none
  | '"' :: rest => some (acc.reverse, rest)
  | '\\' :: 'u' :: a :: b :: c :: d :: rest =>
    match charOfFour? a b c d with
    | some x => readBasic (x :: acc) rest
    | none => none
  | '\\' :: 'U' :: a :: b :: c :: d :: e :: f :: g :: h :: rest =>
    match charOfEight? a b c d e f g h with
    | some x => readBasic (x :: acc) rest
    | none => none
  | '\\' :: c :: rest =>
    match escape? c with
    | some x => readBasic (x :: acc) rest
    | none => none
  | c :: rest => if c != '\\' && isPlain c then readBasic (c :: acc) rest else none

/-- Reads a text up to its closing single quote. -/
def readLiteral (acc : List Char) : List Char → Option (List Char × List Char)
  | [] => none
  | '\'' :: rest => some (acc.reverse, rest)
  | c :: rest => if isPlain c then readLiteral (c :: acc) rest else none

/-- A text that ends in front of the given characters, with the quotes among them that still belong to
it: two at most. -/
def closeWith (quote : Char) (acc rest : List Char) : List Char × List Char :=
  match rest with
  | a :: b :: more =>
    if a = quote then
      if b = quote then ((quote :: quote :: acc).reverse, more) else ((quote :: acc).reverse, b :: more)
    else (acc.reverse, rest)
  | [a] => if a = quote then ((quote :: acc).reverse, []) else (acc.reverse, rest)
  | [] => (acc.reverse, [])

/-- Nothing but blanks stands in front of the next line break. -/
def endsLine (cs : List Char) : Bool :=
  match cs.dropWhile fun c => c == ' ' || c == '\t' with
  | '\n' :: _ => true
  | '\r' :: '\n' :: _ => true
  | _ => false

/-- Reads a text on several lines up to its closing double quotes. A backslash at the end of a line takes
away the blanks and line breaks behind it; `skipping` says that this is going on. -/
def readLines (skipping : Bool) (acc : List Char) : List Char → Option (List Char × List Char)
  | [] => none
  | '"' :: '"' :: '"' :: rest => some (closeWith '"' acc rest)
  | '\r' :: '\n' :: rest =>
    if skipping then readLines true acc rest else readLines false ('\n' :: acc) rest
  | '\n' :: rest =>
    if skipping then readLines true acc rest else readLines false ('\n' :: acc) rest
  | '\\' :: 'u' :: a :: b :: c :: d :: rest =>
    match charOfFour? a b c d with
    | some x => readLines false (x :: acc) rest
    | none => none
  | '\\' :: 'U' :: a :: b :: c :: d :: e :: f :: g :: h :: rest =>
    match charOfEight? a b c d e f g h with
    | some x => readLines false (x :: acc) rest
    | none => none
  | '\\' :: c :: rest =>
    if endsLine (c :: rest) then
      if c = '\r' then
        match rest with
        | _ :: rest => readLines true acc rest
        | [] => none
      else readLines true acc rest
    else
      match escape? c with
      | some x => readLines false (x :: acc) rest
      | none => none
  | c :: rest =>
    if skipping && (c == ' ' || c == '\t') then readLines true acc rest
    else if c != '\\' && isPlain c then readLines false (c :: acc) rest
    else none

/-- Reads a text on several lines up to its closing single quotes. -/
def readLiteralLines (acc : List Char) : List Char → Option (List Char × List Char)
  | [] => none
  | '\'' :: '\'' :: '\'' :: rest => some (closeWith '\'' acc rest)
  | '\r' :: '\n' :: rest => readLiteralLines ('\n' :: acc) rest
  | '\n' :: rest => readLiteralLines ('\n' :: acc) rest
  | c :: rest => if isPlain c then readLiteralLines (c :: acc) rest else none

def dropBreak : List Char → List Char
  | '\n' :: rest => rest
  | '\r' :: '\n' :: rest => rest
  | cs => cs

def asText (r : List Char × List Char) : String × List Char := (String.ofList r.1, r.2)

def readLine? : List Char → Option (String × List Char)
  | '"' :: rest => (readBasic [] rest).map asText
  | '\'' :: rest => (readLiteral [] rest).map asText
  | _ => none

/-- Reads a text on one line or several. -/
def read? : List Char → Option (String × List Char)
  | '"' :: '"' :: '"' :: rest => (readLines false [] (dropBreak rest)).map asText
  | '\'' :: '\'' :: '\'' :: rest => (readLiteralLines [] (dropBreak rest)).map asText
  | cs => readLine? cs

end FeedStore.Toml.Text

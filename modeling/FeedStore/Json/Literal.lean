import FeedStore.Text.Hex

/-!
# String literals of JSON

`encode` writes the shortest escapes: the quote, the backslash and the five named control characters
by two characters, the other control characters by number, everything else as itself. `readBody`
reads any literal that the grammar of JSON allows; surrogate escapes must come in pairs. Main
statement: `readBody_encodeChars`, that reading takes exactly what was written and gives it back.
-/

namespace FeedStore.Json

def isSpace (c : Char) : Bool := c == ' ' || c == '\n' || c == '\t' || c == '\r'

def skipSpace (cs : List Char) : List Char := cs.dropWhile isSpace

/-- How one character stands between the quotes. -/
def encodeChar (c : Char) : List Char :=
  match c with
  | '"' => ['\\', '"']
  | '\\' => ['\\', '\\']
  | '\x08' => ['\\', 'b']
  | '\x0c' => ['\\', 'f']
  | '\n' => ['\\', 'n']
  | '\r' => ['\\', 'r']
  | '\t' => ['\\', 't']
  | c =>
    if c.toNat < 0x20 then
      ['\\', 'u', '0', '0', Text.hexDigit (c.toNat / 16), Text.hexDigit (c.toNat % 16)]
    else [c]

def encodeChars (cs : List Char) : List Char := cs.flatMap encodeChar

def encode (s : String) : String :=
  String.ofList ('"' :: encodeChars s.toList ++ ['"'])

/-- The character for an escape of two characters. -/
def shortEscape? (c : Char) : Option Char :=
  match c with
  | '"' => some '"'
  | '\\' => some '\\'
  | '/' => some '/'
  | 'b' => some '\x08'
  | 'f' => some '\x0c'
  | 'n' => some '\n'
  | 'r' => some '\r'
  | 't' => some '\t'
  | _ => none

/-- The scalar value of a surrogate pair. -/
def ofSurrogates (high low : Nat) : Nat :=
  0x10000 + (high - 0xd800) * 0x400 + (low - 0xdc00)

/-- Reads what stands between the quotes, up to the closing one, and returns the characters and what
follows. `acc` holds the characters read so far, the last one first. -/
def readBody (acc : List Char) : List Char → Option (List Char × List Char)
  | [] => none
  | '"' :: rest => some (acc.reverse, rest)
  | '\\' :: 'u' :: a :: b :: c :: d :: rest =>
    match Text.hexQuad? a b c d with
    | none => none
    | some n =>
      if 0xd800 ≤ n ∧ n < 0xdc00 then
        match rest with
        | '\\' :: 'u' :: e :: f :: g :: h :: rest' =>
          match Text.hexQuad? e f g h with
          | some m =>
            if 0xdc00 ≤ m ∧ m < 0xe000 then
              readBody (Char.ofNat (ofSurrogates n m) :: acc) rest'
            else none
          | none => none
        | _ => none
      else if 0xdc00 ≤ n ∧ n < 0xe000 then none
      else readBody (Char.ofNat n :: acc) rest
  | '\\' :: c :: rest =>
    match shortEscape? c with
    | some e => readBody (e :: acc) rest
    | none => none
  | c :: rest => if c.toNat < 0x20 ∨ c = '\\' then none else readBody (c :: acc) rest

/-- Reads a literal with space in front of it. -/
def readLiteral (cs : List Char) : Option (String × List Char) :=
  match skipSpace cs with
  | '"' :: rest => (readBody [] rest).map fun r => (String.ofList r.1, r.2)
  | _ => none

def atEnd (cs : List Char) : Bool := (skipSpace cs).isEmpty

/-! ## Reading what was written -/

/-- A character that needs no escape is read as itself. -/
theorem readBody_plain {c : Char} {acc rest : List Char} (hq : c ≠ '"') (hb : c ≠ '\\')
    (hc : ¬ c.toNat < 0x20) : readBody acc (c :: rest) = readBody (c :: acc) rest := by
  rw [readBody]
  · simp [hc, hb]
  all_goals simp_all

/-- An escape of two characters is read as the character it names. -/
theorem readBody_short {c e : Char} {acc rest : List Char} (hu : c ≠ 'u')
    (h : shortEscape? c = some e) :
    readBody acc ('\\' :: c :: rest) = readBody (e :: acc) rest := by
  rw [readBody]
  · simp [h]
  · simp_all

/-- A control character is read back from its number. -/
theorem readBody_control {n : Nat} {acc rest : List Char} (h : n < 0x20) :
    readBody acc
        ('\\' :: 'u' :: '0' :: '0' :: Text.hexDigit (n / 16) :: Text.hexDigit (n % 16) :: rest)
      = readBody (Char.ofNat n :: acc) rest := by
  have h1 := Text.hexValue?_hexDigit (show n / 16 < 16 by omega)
  have h2 := Text.hexValue?_hexDigit (show n % 16 < 16 by omega)
  have h0 : Text.hexValue? '0' = some 0 := by decide
  have hq : Text.hexQuad? '0' '0' (Text.hexDigit (n / 16)) (Text.hexDigit (n % 16)) = some n := by
    simp only [Text.hexQuad?, h0, h1, h2]
    simp
    omega
  rw [readBody, hq]
  have : ¬ 0xd800 ≤ n := by omega
  have : ¬ 0xdc00 ≤ n := by omega
  simp [*]

theorem readBody_encodeChar (c : Char) (acc rest : List Char) :
    readBody acc (encodeChar c ++ rest) = readBody (c :: acc) rest := by
  unfold encodeChar
  split
  case h_8 =>
    split
    · next h =>
      have := @readBody_control c.toNat acc rest h
      simpa using this
    · next h => exact readBody_plain (by assumption) (by assumption) h
  all_goals exact readBody_short (by decide) (by decide)

/-- Reading takes exactly what was written, up to the closing quote. -/
theorem readBody_encodeChars (cs acc rest : List Char) :
    readBody acc (encodeChars cs ++ '"' :: rest) = some (acc.reverse ++ cs, rest) := by
  induction cs generalizing acc with
  | nil => simp [encodeChars, readBody]
  | cons c cs ih =>
    rw [encodeChars, List.flatMap_cons, List.append_assoc, readBody_encodeChar]
    simpa [encodeChars] using ih (c :: acc)

end FeedStore.Json

/-!
# Numbers, dates and the other bare words of TOML

A bare word is what stands between blanks and punctuation. It is a truth value, an integer of 64 bits
in one of four bases, a number with a fraction or an exponent, or a date, a time or both. Underscores
stand between digits only. A positive number that is too large to be represented is refused.
-/

namespace FeedStore.Toml

/-- What a bare word stands for. -/
inductive Scalar where
  | integer (n : Int)
  | decimal
  | boolean (b : Bool)
  | moment
  deriving DecidableEq, Repr

namespace Scalar

def digitValue? (base : Nat) (c : Char) : Option Nat :=
  let n := c.toNat
  let v := if '0' ≤ c ∧ c ≤ '9' then n - 48
    else if 'a' ≤ c ∧ c ≤ 'f' then n - 87
    else if 'A' ≤ c ∧ c ≤ 'F' then n - 55
    else 16
  if v < base then some v else none

def isDigit (c : Char) : Bool := '0' ≤ c && c ≤ '9'

/-- The values of digits with single underscores between them. `afterDigit` says whether a digit stands
right in front. -/
def digitsFrom (base : Nat) : List Char → Bool → List Nat → Option (List Nat)
  | [], afterDigit, acc => if afterDigit then some acc.reverse else none
  | '_' :: cs, afterDigit, acc => if afterDigit then digitsFrom base cs false acc else none
  | c :: cs, _, acc =>
    match digitValue? base c with
    | some v => digitsFrom base cs true (v :: acc)
    | none => none

/-- The values of the digits of a whole word, of which there is at least one. -/
def digits? (base : Nat) (cs : List Char) : Option (List Nat) := digitsFrom base cs false []

/-- The number that digits stand for, or `bound` if that is less. -/
def boundedValue (base bound : Nat) (digits : List Nat) : Nat :=
  digits.foldl (fun n d => min (n * base + d) bound) 0

/-- The end of the range of integers. -/
def integerBound : Nat := Nat.pow 2 63

/-- The integer with a sign and digits, if it is in range. -/
def signed? (negative : Bool) (base : Nat) (digits : List Nat) : Option Scalar :=
  let n := boundedValue base (integerBound + 1) digits
  if negative then if n ≤ integerBound then some (integer (-n)) else none
  else if n < integerBound then some (integer n) else none

/-- The sign in front of a word, and the word behind it. -/
def splitSign : List Char → Bool × List Char
  | '-' :: cs => (true, cs)
  | '+' :: cs => (false, cs)
  | cs => (false, cs)

/-- The digits of a decimal integer: no zero in front of other digits. -/
def wholePart? (cs : List Char) : Option (List Nat) :=
  match cs with
  | ['0'] => some [0]
  | '0' :: _ => none
  | cs => digits? 10 cs

/-- The exponent that a word behind the letter `e` stands for, or a bound far outside the range of
numbers. -/
def exponent? (cs : List Char) : Option Int :=
  let (negative, cs) := splitSign cs
  (digits? 10 cs).map fun ds =>
    let n := boundedValue 10 100000000 ds
    if negative then -n else n

/-- The least number that rounds to no representable one. -/
def roundingBound : Nat := Nat.pow 2 1024 - Nat.pow 2 970

/-- The number `0.d₁d₂d₃…` times ten to the given power is at least `roundingBound`, which has 309 digits
in front of the point. -/
def isTooLarge (digits : List Nat) (power : Int) : Bool :=
  let significant := digits.dropWhile (· == 0)
  let power := power - (digits.length - significant.length : Nat)
  if significant = [] then false
  else if power < 309 then false
  else if power > 309 then true
  else
    let front := significant.take 309
    let front := front ++ List.replicate (309 - front.length) 0
    front.foldl (fun n d => n * 10 + d) 0 ≥ roundingBound

def isExponentLetter (c : Char) : Bool := c == 'e' || c == 'E'

/-- The digits behind the point and the exponent of a word without its whole part. -/
def fraction? : List Char → Option (List Nat × Int)
  | '.' :: cs => do
    let fraction ← digits? 10 (cs.takeWhile fun c => !isExponentLetter c)
    match cs.dropWhile fun c => !isExponentLetter c with
    | [] => some (fraction, 0)
    | _ :: cs => (exponent? cs).map fun e => (fraction, e)
  | _ :: cs => (exponent? cs).map fun e => ([], e)
  | [] => none

/-- A word of decimal digits with a fraction, an exponent or both. -/
def decimal? (negative : Bool) (cs : List Char) : Option Scalar := do
  let inWhole := fun c : Char => c != '.' && !isExponentLetter c
  let whole ← wholePart? (cs.takeWhile inWhole)
  let (fraction, exponent) ← fraction? (cs.dropWhile inWhole)
  if !negative && isTooLarge (whole ++ fraction) (whole.length + exponent) then none
  else some decimal

/-! ## Dates and times -/

/-- A number of two digits up to a largest one. -/
def upTo? (largest : Nat) (a b : Char) : Option Nat := do
  let a ← digitValue? 10 a
  let b ← digitValue? 10 b
  if a * 10 + b ≤ largest then some (a * 10 + b) else none

def daysIn (year month : Nat) : Nat :=
  if month = 2 then if year % 4 = 0 ∧ (year % 100 ≠ 0 ∨ year % 400 = 0) then 29 else 28
  else if month = 4 ∨ month = 6 ∨ month = 9 ∨ month = 11 then 30
  else 31

/-- What follows a date at the start of a word. -/
def afterDate? : List Char → Option (List Char)
  | y₁ :: y₂ :: y₃ :: y₄ :: '-' :: m₁ :: m₂ :: '-' :: d₁ :: d₂ :: rest => do
    let century ← upTo? 99 y₁ y₂
    let year ← upTo? 99 y₃ y₄
    let month ← upTo? 12 m₁ m₂
    let day ← upTo? (daysIn (century * 100 + year) month) d₁ d₂
    if month = 0 ∨ day = 0 then none else some rest
  | _ => none

/-- What follows a time at the start of a word. -/
def afterTime? : List Char → Option (List Char)
  | h₁ :: h₂ :: ':' :: m₁ :: m₂ :: ':' :: s₁ :: s₂ :: rest => do
    let _ ← upTo? 23 h₁ h₂
    let _ ← upTo? 59 m₁ m₂
    let _ ← upTo? 60 s₁ s₂
    match rest with
    | '.' :: cs =>
      match cs.takeWhile isDigit with
      | [] => none
      | _ => some (cs.dropWhile isDigit)
    | _ => some rest
  | _ => none

/-- The word is a distance from universal time. -/
def isOffset : List Char → Bool
  | ['Z'] | ['z'] => true
  | sign :: h₁ :: h₂ :: ':' :: m₁ :: m₂ :: [] =>
    (sign == '+' || sign == '-') && (upTo? 23 h₁ h₂).isSome && (upTo? 59 m₁ m₂).isSome
  | _ => false

/-- The word is a time with or without a distance from universal time. -/
def isTimeOfDate (cs : List Char) : Bool :=
  match afterTime? cs with
  | some rest => rest.isEmpty || isOffset rest
  | none => false

/-- The word is a date, a time, or a date and a time with a letter between them. -/
def isMoment (cs : List Char) : Bool :=
  match afterDate? cs with
  | some [] => true
  | some (c :: rest) => (c == 'T' || c == 't') && isTimeOfDate rest
  | none => afterTime? cs == some []

/-- The word is a date and nothing else, so that a time may follow after a space. -/
def isDate (cs : List Char) : Bool := afterDate? cs == some []

/-! ## Words -/

/-- What a word stands for. -/
def ofWord? (cs : List Char) : Option Scalar :=
  if cs = ['t', 'r', 'u', 'e'] then some (boolean true)
  else if cs = ['f', 'a', 'l', 's', 'e'] then some (boolean false)
  else if isMoment cs then some moment
  else
    match cs with
    | '0' :: 'x' :: cs => (digits? 16 cs).bind (signed? false 16)
    | '0' :: 'o' :: cs => (digits? 8 cs).bind (signed? false 8)
    | '0' :: 'b' :: cs => (digits? 2 cs).bind (signed? false 2)
    | cs =>
      let (negative, cs) := splitSign cs
      if cs = ['i', 'n', 'f'] ∨ cs = ['n', 'a', 'n'] then some decimal
      else if cs.any fun c => c == '.' || isExponentLetter c then decimal? negative cs
      else (wholePart? cs).bind (signed? negative 10)

end Scalar

end FeedStore.Toml

import FeedStore.Text.Fold
import FeedStore.Text.Range
import FeedStore.Text.Lowercase.Table

/-!
# Lower case

The tags of a filter are written in lower case by the rules of Unicode before they are looked for.
The mapping is one character to one character with two exceptions: `İ` becomes `i` and a dot above,
and a capital sigma at the end of a word becomes the final sigma.
-/

namespace FeedStore.Text

namespace Lowercase

def isCased (c : Char) : Bool := inRanges casedRanges c

/-- The character is passed over when looking for a cased neighbour. -/
def isIgnorable (c : Char) : Bool := inRanges ignorableRanges c

/-- The first character that is not passed over has a case. -/
def startsCased (cs : List Char) : Bool :=
  (cs.dropWhile isIgnorable).head?.any isCased

/-- The lower case of a character as the table has it. -/
def tableLower (c : Char) : Char :=
  match mappings.find? fun m => m.1 ≤ c.toNat && c.toNat ≤ m.2.1 && (c.toNat - m.1) % m.2.2.1 == 0 with
  | some m => Char.ofNat (c.toNat + m.2.2.2).toNat
  | none => c

/-- The lower case of one character, apart from a sigma at the end of a word. -/
def lowerChar (c : Char) : List Char :=
  if c.toNat < 0x80 then [fold c]
  else if c = 'İ' then ['i', '\u0307']
  else [tableLower c]

/-- The lower case of the rest of a text whose earlier characters are given last first: a capital
sigma is final when a cased character stands before it and none follows. -/
def lowerFrom (before : List Char) : List Char → List Char
  | [] => []
  | c :: cs =>
    (if c = 'Σ' then
      [if startsCased before && !startsCased cs then 'ς' else 'σ']
    else lowerChar c) ++ lowerFrom (c :: before) cs

end Lowercase

def lowercase (s : String) : String :=
  String.ofList (Lowercase.lowerFrom [] s.toList)

/-! ## Laws -/

theorem Lowercase.lowerChar_of_ascii {c : Char} (h : c.toNat < 0x80) :
    Lowercase.lowerChar c = [fold c] := by
  simp [lowerChar, h]

/-- On ASCII text lower case is the folding that searching uses. -/
theorem Lowercase.lowerFrom_of_ascii {cs : List Char} (h : ∀ c ∈ cs, c.toNat < 0x80)
    (before : List Char) : Lowercase.lowerFrom before cs = foldChars cs := by
  induction cs generalizing before with
  | nil => rfl
  | cons c cs ih =>
    have hc : c.toNat < 0x80 := h c (by simp)
    have hs : c ≠ 'Σ' := by rintro rfl; revert hc; decide
    have ih' := ih (fun d hd => h d (by simp [hd])) (c :: before)
    simp [lowerFrom, hs, lowerChar_of_ascii hc, ih', foldChars]

end FeedStore.Text

import FeedStore.Text.Hex
import FeedStore.Text.Range
import FeedStore.Text.Quoted.Table

/-!
# Quoted text

Messages quote the names and addresses they are about. A quoted text stands between double quotes;
the quote, the backslash, tab, line feed, carriage return and `U+0000` have short escapes, and every
other character that cannot be seen on its own is written by its number in hexadecimal.
-/

namespace FeedStore.Text

namespace Quoted

/-- The character is written by its number. -/
def isHidden (c : Char) : Bool := inRanges hiddenRanges c

/-- How one character stands between the quotes. -/
def escapeChar (c : Char) : List Char :=
  match c with
  | '\x00' => ['\\', '0']
  | '\t' => ['\\', 't']
  | '\r' => ['\\', 'r']
  | '\n' => ['\\', 'n']
  | '"' => ['\\', '"']
  | '\\' => ['\\', '\\']
  | c =>
    if 0x20 ≤ c.toNat ∧ c.toNat < 0x7f then [c]
    else if isHidden c then
      '\\' :: 'u' :: '\x7b' :: (hexOfNat c.toNat).toList ++ ['\x7d']
    else [c]

end Quoted

/-- The text between double quotes, with escapes for what would not be seen. -/
def quoted (s : String) : String :=
  String.ofList ('"' :: s.toList.flatMap Quoted.escapeChar ++ ['"'])

end FeedStore.Text

import CellTx.Bytes
import CellTx.Text.Hidden

/-!
# Quoted text

Text inside double quotes, as the messages of `AmountError` show what a caller wrote. A quote and a
backslash get a backslash, four control characters have short names, and every other hidden
character is written as its code point in hexadecimal (`escape`). Everything else stands for itself.

Results:
* `escape_of_visible`: text that a reader can see is shown as it is.

Out of scope: reading quoted text back. A message is not parsed again.
-/

namespace CellTx.Text

/-- The hexadecimal digits of a number without leading zeros. -/
def hexDigits (n : Nat) : List Char := Nat.toDigits 16 n

/-- How a character is written inside quotes. -/
def escape (c : Char) : List Char :=
  if c = '"' then ['\\', '"']
  else if c = '\\' then ['\\', '\\']
  else if c = '\n' then ['\\', 'n']
  else if c = '\r' then ['\\', 'r']
  else if c = '\t' then ['\\', 't']
  else if c = '\x00' then ['\\', '0']
  else if isHidden c.toNat then '\\' :: 'u' :: '\x7b' :: (hexDigits c.toNat ++ ['\x7d'])
  else [c]

/-- The text in quotes. -/
def quoted (s : String) : String :=
  String.ofList ('"' :: (s.toList.flatMap escape ++ ['"']))

/-- A character that needs no escape stands for itself. -/
theorem escape_of_visible {c : Char} (hq : c ≠ '"') (hb : c ≠ '\\')
    (hv : isHidden c.toNat = false) : escape c = [c] := by
  have hn : c ≠ '\n' ∧ c ≠ '\r' ∧ c ≠ '\t' ∧ c ≠ '\x00' := by
    refine ⟨?_, ?_, ?_, ?_⟩ <;> (rintro rfl; revert hv; decide +kernel)
  simp [escape, hq, hb, hn, hv]

end CellTx.Text

import DeskCalc.Attempt
import DeskCalc.Text.Half

/-!
# Text from bytes

Bytes are read as UTF-8.  Where they are not well-formed, the longest beginning of a character
that stands there, or else a single byte, gives the replacement character.
-/

namespace DeskCalc.Text

/-- What the first byte of a character of several bytes says: the bits that it carries, how many
bytes follow it, and between which bounds the next one lies. -/
structure Lead where
  bits : Nat
  following : Nat
  low : Nat
  high : Nat

/-- The meaning of a byte as the first one of several. -/
def Lead.ofByte? (b : Nat) : Option Lead :=
  if b < 0xC2 then none
  else if b < 0xE0 then some ⟨b - 0xC0, 1, 0x80, 0xBF⟩
  else if b < 0xF0 then
    some ⟨b - 0xE0, 2, if b = 0xE0 then 0xA0 else 0x80, if b = 0xED then 0x9F else 0xBF⟩
  else if b < 0xF5 then
    some ⟨b - 0xF0, 3, if b = 0xF0 then 0x90 else 0x80, if b = 0xF4 then 0x8F else 0xBF⟩
  else none

/-- The number that `n` more bytes complete, if they are there, and the bytes that are left.  The
first of them lies between `low` and `high`. -/
def completeChar : (n low high value : Nat) → List Nat → Option Nat × List Nat
  | 0, _, _, value, bytes => (some value, bytes)
  | _ + 1, _, _, _, [] => (none, [])
  | n + 1, low, high, value, b :: bytes =>
    if low ≤ b ∧ b ≤ high then completeChar n 0x80 0xBF (value * 64 + (b - 0x80)) bytes
    else (none, b :: bytes)

theorem completeChar_length_le (n low high value : Nat) (bytes : List Nat) :
    (completeChar n low high value bytes).2.length ≤ bytes.length := by
  induction bytes generalizing n low high value with
  | nil => cases n <;> simp [completeChar]
  | cons b bytes ih =>
    cases n with
    | zero => simp [completeChar]
    | succ n =>
      rw [completeChar]
      split
      · exact Nat.le_succ_of_le (ih ..)
      · simp

/-- The text of a row of bytes. -/
def ofUtf8 : List Nat → Text
  | [] => []
  | b :: bytes =>
    if b < 0x80 then Char.ofNat b :: ofUtf8 bytes
    else
      match Lead.ofByte? b with
      | none => replacement :: ofUtf8 bytes
      | some l =>
        let completed := completeChar l.following l.low l.high l.bits bytes
        (completed.1.map ofCode).getD [replacement] ++ ofUtf8 completed.2
termination_by bytes => bytes.length
decreasing_by
  all_goals simp only [List.length_cons]
  · omega
  · omega
  · exact Nat.lt_succ_of_le (completeChar_length_le ..)

/-- The bytes of a text.  A half of a pair has none, and its replacement stands in. -/
def toUtf8 (s : Text) : List Nat :=
  (toChars s).flatMap fun c => (String.utf8EncodeChar c).map UInt8.toNat

/-- The bytes of a text, if all of it has bytes. -/
def toUtf8? (s : Text) : Except Fault (List Nat) :=
  if hasHalf s then .error .halfCharacter else .ok (toUtf8 s)

end DeskCalc.Text

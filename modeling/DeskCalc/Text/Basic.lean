/-!
# Text

A text is handled as the list of its characters; how it keeps halves of characters is settled
elsewhere.  Properties of characters that only a table can give are kept as ranges of code points.
-/

namespace DeskCalc

/-- A piece of input or output, character by character. -/
abbrev Text := List Char

namespace Text

/-- Closed ranges of code points, in ascending order. -/
abbrev Ranges := List (Nat × Nat)

/-- Whether the character lies in one of the ranges. -/
def Ranges.contains (rs : Ranges) (c : Char) : Bool :=
  rs.any fun r => r.1 ≤ c.toNat && c.toNat ≤ r.2

/-- Whether `part` occurs in `s` as one piece. -/
def occursIn (part : Text) : Text → Bool
  | [] => part.isEmpty
  | c :: rest => part.isPrefixOf (c :: rest) || occursIn part rest

end Text
end DeskCalc

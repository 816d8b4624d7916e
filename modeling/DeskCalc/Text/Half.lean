import DeskCalc.Text.Basic

/-!
# Halves of surrogate pairs

A numeric escape, or a unit of an encoding, may give half of a surrogate pair without the other
half.  Such a half is no character, but a text has to keep it.  It is written as a mark and a
character that tells which half it is; the mark itself is written twice, and every other character
once.

The main definitions are `ofCode`, which writes a character or a half by its number, and `codes`,
which gives the numbers of a text.  The main statement is `codes_ofCodes`: nothing is lost.
-/

namespace DeskCalc.Text

/-! ### Halves by their numbers -/

/-- Whether a number is the first half of a pair. -/
def isHighHalf (n : Nat) : Bool :=
  0xD800 ≤ n && n < 0xDC00

/-- Whether a number is the second half of a pair. -/
def isLowHalf (n : Nat) : Bool :=
  0xDC00 ≤ n && n < 0xE000

/-- Whether a number is a half of a pair. -/
def isHalf (n : Nat) : Bool :=
  0xD800 ≤ n && n < 0xE000

/-- The number of the character of two halves. -/
def ofHalves (high low : Nat) : Nat :=
  0x10000 + (high - 0xD800) * 0x400 + (low - 0xDC00)

/-! ### Writing and reading signs -/

/-- The number of the mark, which no text is expected to hold. -/
def markCode : Nat := 0x10FFFF

/-- The mark before a half. -/
def mark : Char := Char.ofNat markCode

/-- The distance from a half to the character that tells it behind a mark. -/
def halfShift : Nat := 0x101800

/-- The text of a character or a half, given by its number. -/
def ofCode (n : Nat) : Text :=
  if isHalf n then [mark, Char.ofNat (n + halfShift)]
  else if n = markCode then [mark, mark]
  else [Char.ofNat n]

/-- The text of characters and halves. -/
def ofCodes (ns : List Nat) : Text :=
  ns.flatMap ofCode

/-- The numbers of the characters and halves of a text. -/
def codes : Text → List Nat
  | c :: d :: rest =>
    if c = mark then (if d = mark then markCode else d.toNat - halfShift) :: codes rest
    else c.toNat :: codes (d :: rest)
  | [c] => [c.toNat]
  | [] => []

/-- The first character or half of a text, as it is written there. -/
def firstSign : Text → Text
  | c :: d :: _ => if c = mark then [c, d] else [c]
  | s => s

/-- The text of a row of characters, none of which belongs to the writing of a half yet. -/
def ofChars (s : List Char) : Text :=
  ofCodes (s.map Char.toNat)

/-- The character that stands for what is none. -/
def replacement : Char := Char.ofNat 0xFFFD

/-- The characters of a text, with a replacement for every half. -/
def toChars (s : Text) : List Char :=
  (codes s).map fun n => if isHalf n then replacement else Char.ofNat n

/-- Whether a text holds a half. -/
def hasHalf (s : Text) : Bool :=
  (codes s).any isHalf

/-- Whether a text stands before another one, or is the same, when texts are sorted by the numbers
of their characters and halves. -/
def sortsBefore (s t : Text) : Bool :=
  !(codes t).lex (codes s) fun m n => m < n

/-! ### Nothing is lost -/

theorem isHalf_iff {n : Nat} : isHalf n = true ↔ 0xD800 ≤ n ∧ n < 0xE000 := by
  simp [isHalf]

theorem toNat_ofNat {n : Nat} (bound : n < 0x110000) (whole : ¬isHalf n) :
    (Char.ofNat n).toNat = n := by
  rw [isHalf_iff] at whole
  have valid : n.isValidChar := by unfold Nat.isValidChar; omega
  rw [Char.ofNat, dif_pos valid]
  rfl

theorem mark_toNat : mark.toNat = markCode :=
  toNat_ofNat (by decide) (by decide)

/-- A character with a number of its own is not the mark. -/
theorem ne_mark {c : Char} (h : c.toNat ≠ markCode) : c ≠ mark :=
  fun same => h (same ▸ mark_toNat)

theorem codes_cons_of_ne {c : Char} (h : c ≠ mark) (s : Text) :
    codes (c :: s) = c.toNat :: codes s := by
  cases s <;> simp [codes, h]

theorem codes_ofCode_append {n : Nat} (bound : n < 0x110000) (s : Text) :
    codes (ofCode n ++ s) = n :: codes s := by
  unfold ofCode
  split
  · rename_i half
    rw [isHalf_iff] at half
    have number : (Char.ofNat (n + halfShift)).toNat = n + halfShift := by
      apply toNat_ofNat
      · unfold halfShift; omega
      · rw [isHalf_iff]; unfold halfShift; omega
    have other : Char.ofNat (n + halfShift) ≠ mark := by
      apply ne_mark
      rw [number]
      unfold halfShift markCode
      omega
    simp [codes, other, number]
  · rename_i whole
    split
    · rename_i same
      simp [codes, same]
    · rename_i other
      have number := toNat_ofNat bound whole
      rw [List.singleton_append, codes_cons_of_ne (ne_mark (by rwa [number])), number]

theorem codes_ofCodes {ns : List Nat} (bound : ∀ n ∈ ns, n < 0x110000) :
    codes (ofCodes ns) = ns := by
  induction ns with
  | nil => rfl
  | cons n ns ih =>
    have rest := ih fun m member => bound m (List.mem_cons_of_mem n member)
    rw [ofCodes] at rest ⊢
    rw [List.flatMap_cons, codes_ofCode_append (bound n List.mem_cons_self), rest]

end DeskCalc.Text

import DeskCalc.Proofs.Expression.Readback
import DeskCalc.Proofs.Number.Fixed

/-!
# The numbers that texts show

A text that is a sign and a spelling shows one number, exactly as it stands there.  Reading the text
gives the double nearest to that number, whatever follows behind a blank.

The main definition is `Shows`.
-/

namespace DeskCalc.Expression

open Number (Decimal applySign leadingNumber? natText nearestTo pointed positional scientific
  signed zeros)

/-! ## Spellings -/

namespace Spelling

/-- The power of ten of the exponent, zero if there is none. -/
def power (n : Spelling) : ℤ :=
  n.power?.elim 0 Power.value

/-- The digits before and behind the point. -/
def digits (n : Spelling) : Text :=
  n.whole.text ++ n.fraction

/-- The digits from the first one on that is not zero. -/
def significant (n : Spelling) : Text :=
  n.digits.dropWhile (· == '0')

/-- The number that is spelled. -/
def number (n : Spelling) : ℚ :=
  (Text.digitsValue n.whole.text + Text.digitsValue n.fraction / 10 ^ n.fraction.length) *
    10 ^ n.power

variable (n : Spelling)

theorem number_eq : n.number = Text.digitsValue n.digits * 10 ^ (n.power - n.fraction.length) :=
  n.numeral.number_eq

theorem number_eq_value : n.number =
    Decimal.value ⟨Text.digitsValue (n.numeral.whole ++ n.numeral.fraction),
      n.numeral.exponent - n.numeral.fraction.length⟩ :=
  n.numeral.number_eq_value

theorem number_nonneg : 0 ≤ n.number :=
  n.numeral.number_nonneg

/-- Reading a spelling gives the double nearest to the number that is spelled. -/
theorem value_numeral : n.numeral.value = nearestTo n.number :=
  n.numeral.value_eq

/-- A spelling is known from what it is read as. -/
theorem numeral_congr {m n : Spelling} (h : m.text = n.text) : m.numeral = n.numeral := by
  have hnothing : Spaced [] := nofun
  have hm := m.readNumeral? hnothing
  have hn := n.readNumeral? hnothing
  rw [h, hn] at hm
  exact (Prod.mk.inj (Option.some.inj hm)).1.symm

theorem number_congr {m n : Spelling} (h : m.text = n.text) : m.number = n.number := by
  rw [number_eq_value, number_eq_value, numeral_congr h]

/-! ## Parts of spellings -/

section Parts

/-- The spelling of a whole part, of a fraction, which may be empty, and perhaps an exponent. -/
def ofParts (whole : Digits) (fraction : Text) (h : AreDigits fraction) (power? : Option Power) :
    Spelling where
  whole := whole
  fraction? := if hne : fraction = [] then none else some ⟨fraction, hne, h⟩
  power? := power?

variable (whole : Digits) {fraction : Text} (h : AreDigits fraction) (power? : Option Power)

@[simp]
theorem fraction_ofParts : (ofParts whole fraction h power?).fraction = fraction := by
  by_cases hne : fraction = []
  · simp [Spelling.fraction, ofParts, hne]
  · simp [Spelling.fraction, ofParts, hne]

@[simp]
theorem digits_ofParts : (ofParts whole fraction h power?).digits = whole.text ++ fraction := by
  rw [digits, fraction_ofParts]
  rfl

@[simp]
theorem text_ofParts : (ofParts whole fraction h power?).text =
    pointed whole.text fraction ++ power?.elim [] Power.text := by
  by_cases hne : fraction = []
  · simp [text, fractionText, powerText, ofParts, pointed, hne]
  · simp [text, fractionText, powerText, ofParts, pointed, hne]

end Parts

/-- With an exponent, one digit stands before the point. -/
theorem exists_scientific (ds : Digits) (p : ℤ) :
    ∃ n : Spelling, n.text = scientific 1 ds.text p ∧ n.digits = ds.text ∧
      n.whole.text.length = 1 ∧ ∃ power, n.power? = some power ∧ power.value = p := by
  obtain ⟨c, t, htext⟩ := List.exists_cons_of_ne_nil ds.ne_nil
  have hall : AreDigits (c :: t) := htext ▸ ds.areDigits
  have hwhole : AreDigits [c] := List.forall_mem_singleton.mpr (hall c List.mem_cons_self)
  have ht : AreDigits t := fun d hd => hall d (List.mem_cons_of_mem c hd)
  have hpower : AreDigits (natText p.natAbs) := fun _ he => Number.isDigit_of_mem_natText he
  have hpos := List.length_pos_iff.mpr (Number.natText_ne_nil p.natAbs)
  refine ⟨ofParts ⟨[c], List.cons_ne_nil _ _, hwhole⟩ t ht
    (some ⟨some (p < 0), natText p.natAbs, Number.natText_ne_nil _, hpower⟩),
    ?_, ?_, rfl, _, rfl, ?_⟩
  · rw [text_ofParts, scientific, Nat.sub_eq_zero_of_le hpos, htext]
    cases t with
    | nil => simp [pointed, Number.pointAfterFirst, Power.text, zeros]
    | cons d t => simp [pointed, Number.pointAfterFirst, Power.text, zeros]
  · rw [digits_ofParts, htext]
    rfl
  · rw [Power.value]
    simp only [Number.digitsValue_natText, Option.some.injEq, decide_eq_true_iff]
    split <;> omega

/-- Without an exponent, zeros stand in front of the digits where the first one stands behind the
point. -/
theorem exists_positional (ds : Digits) {p : ℤ} (hp : p < ds.text.length) :
    ∃ n : Spelling, n.text = positional false ds.text p ∧ n.digits = zeros (-p).toNat ++ ds.text ∧
      (n.fraction.length : ℤ) = ds.text.length - 1 - p ∧ n.power? = none ∧
      (n.whole.text = ['0'] ∨ n.whole.text.head? = ds.text.head?) := by
  have hpos := List.length_pos_iff.mpr ds.ne_nil
  rw [positional]
  split
  next hneg =>
    have hzeros : zeros (-p).toNat = '0' :: zeros (-p - 1).toNat := by
      rw [zeros, zeros, ← List.replicate_succ]
      congr 1
      omega
    have hfraction : AreDigits (zeros (-p - 1).toNat ++ ds.text) := by
      intro c hc
      rcases List.mem_append.mp hc with hc | hc
      · exact Number.isDigit_of_mem_zeros hc
      · exact ds.areDigits c hc
    refine ⟨ofParts ⟨['0'], List.cons_ne_nil _ _, List.forall_mem_singleton.mpr rfl⟩ _ hfraction
      none, ?_, ?_, ?_, rfl, .inl rfl⟩
    · simp [pointed, ds.ne_nil]
    · rw [digits_ofParts, hzeros]
      rfl
    · rw [fraction_ofParts, List.length_append, zeros, List.length_replicate]
      omega
  next hnonneg =>
    obtain ⟨k, rfl⟩ := Int.eq_ofNat_of_zero_le (not_lt.mp hnonneg)
    have htake : ds.text.take (k + 1) ≠ [] := by
      rw [ne_eq, List.take_eq_nil_iff]
      simp [ds.ne_nil]
    have hwhole : AreDigits (ds.text.take (k + 1)) :=
      fun c hc => ds.areDigits c (List.mem_of_mem_take hc)
    have hfraction : AreDigits (ds.text.drop (k + 1)) :=
      fun c hc => ds.areDigits c (List.mem_of_mem_drop hc)
    have hzeros : zeros (-(k : ℤ)).toNat = [] := by
      rw [Int.toNat_of_nonpos (by omega)]
      rfl
    refine ⟨ofParts ⟨_, htake, hwhole⟩ _ hfraction none, ?_, ?_, ?_, rfl, .inr ?_⟩
    · rw [text_ofParts, pointed, Int.toNat_natCast]
      simp only [List.drop_eq_nil_iff]
      split
      next hle =>
        have hlength : k + 1 = ds.text.length := by omega
        simp [hlength, zeros]
      next => simp
    · rw [digits_ofParts, List.take_append_drop, hzeros]
      rfl
    · rw [fraction_ofParts, List.length_drop]
      omega
    · exact List.head?_take.trans (if_neg (Nat.succ_ne_zero k))

end Spelling

/-! ## Signs -/

/-- A number under a sign. -/
def withSign (negative : Bool) (q : ℚ) : ℚ :=
  if negative then -q else q

theorem neg_nearestTo {q : ℚ} (hq : 0 < q) : -nearestTo q = nearestTo (-q) := by
  have hsign : Number.signBit (nearestTo q) = false := by
    rw [Number.signBit_nearestTo]
    exact decide_eq_false hq.not_gt
  have hsign' : Number.signBit (nearestTo (-q)) = true := by
    rw [Number.signBit_nearestTo]
    exact decide_eq_true (neg_neg_of_pos hq)
  by_cases hfinite : (nearestTo q).isFinite = true
  · obtain ⟨hneg, hbits⟩ := Number.neg_parts hfinite
    apply Number.eq_of_parts
    · rw [hneg, hsign, hsign']
      rfl
    · rw [hbits, Number.unsignedBits_nearestTo_neg]
  · -- Beyond the doubles there is infinity on either side.
    have hbits : Number.unsignedBits (nearestTo q) = Number.infinityBits := by
      have hle : Number.unsignedBits (nearestTo q) ≤ Number.infinityBits :=
        Number.nearest_parts.2.trans_le Number.nearestBits_le
      rw [Number.isFinite_iff, not_lt] at hfinite
      exact le_antisymm hle hfinite
    have hpositive : nearestTo q = Number.infinity :=
      Number.eq_of_parts (hsign.trans Number.parts_infinity.1.symm)
        (hbits.trans Number.parts_infinity.2.symm)
    rw [hpositive]
    refine Number.eq_of_parts (Number.parts_neg_infinity.1.trans hsign'.symm) ?_
    rw [Number.unsignedBits_nearestTo_neg, hbits]
    exact Number.parts_neg_infinity.2

/-- Of a number that is not zero the sign can be applied before or after it is rounded. -/
theorem applySign_nearestTo {negative : Bool} {q : ℚ} (hq : negative = true → 0 < q) :
    applySign negative (nearestTo q) = nearestTo (withSign negative q) := by
  cases negative with
  | false => rfl
  | true => exact neg_nearestTo (hq rfl)

/-! ## Texts -/

/-- The text is a sign and the spelling of a magnitude, which make up the number. -/
def Shows (s : Text) (q : ℚ) : Prop :=
  ∃ negative, ∃ n : Spelling, s = signed negative n.text ∧ q = withSign negative n.number

theorem signed_text_inj {negative negative' : Bool} {m n : Spelling}
    (h : signed negative m.text = signed negative' n.text) :
    negative = negative' ∧ m.text = n.text := by
  have hhead (n : Spelling) (t : Text) : n.text ≠ '-' :: t := by
    obtain ⟨c, s, htext, hc⟩ := n.head
    rw [htext]
    rintro ⟨⟩
    cases hc
  cases negative <;> cases negative'
  · exact ⟨rfl, h⟩
  · exact absurd h (hhead m _)
  · exact absurd h.symm (hhead n _)
  · exact ⟨rfl, List.cons.inj h |>.2⟩

/-- A text shows one number only. -/
theorem Shows.unique {s : Text} {p q : ℚ} (hp : Shows s p) (hq : Shows s q) : p = q := by
  obtain ⟨negative, m, rfl, rfl⟩ := hp
  obtain ⟨negative', n, htext, rfl⟩ := hq
  obtain ⟨rfl, hsame⟩ := signed_text_inj htext
  rw [Spelling.number_congr hsame]

/-- What is read in front of a blank is the double nearest to the number that is shown, unless that
is zero behind a minus. -/
theorem leadingNumber?_signed {negative : Bool} {n : Spelling}
    (hn : negative = true → 0 < n.number) {rest : Text} (hrest : Spaced rest) :
    leadingNumber? (signed negative n.text ++ rest) =
      some (nearestTo (withSign negative n.number)) := by
  rw [leadingNumber?_spelling negative n hrest, n.value_numeral, applySign_nearestTo hn]

end DeskCalc.Expression

import DeskCalc.Number.BasedNumeral
import DeskCalc.Proofs.Number.Doubles
import DeskCalc.Proofs.Text.Alphabet
import DeskCalc.Text.Digit
import Mathlib.Data.List.Induction
import Mathlib.Tactic.IntervalCases

/-!
# Digits of natural numbers

The digits of a number in a base belong to the base, do not begin with a zero unless they are one,
and denote the number again.
-/

namespace DeskCalc.Number

/-! ## Digits as numbers -/

theorem ofDigits_append (base : Nat) (ds es : List Nat) :
    ofDigits base (ds ++ es) = ofDigits base ds * base ^ es.length + ofDigits base es := by
  have hfold (m : Nat) (es : List Nat) : es.foldl (fun n d => base * n + d) m =
      m * base ^ es.length + ofDigits base es := by
    induction es generalizing m with
    | nil => simp [ofDigits]
    | cons e es ih =>
      have hhead : ofDigits base (e :: es) = (base * 0 + e) * base ^ es.length + ofDigits base es :=
        ih (base * 0 + e)
      rw [List.foldl_cons, ih, List.length_cons, pow_succ, hhead]
      ring
  rw [ofDigits, List.foldl_append, hfold]
  rfl

theorem ofDigits_cons (base d : Nat) (ds : List Nat) :
    ofDigits base (d :: ds) = d * base ^ ds.length + ofDigits base ds := by
  have happend := ofDigits_append base [d] ds
  simpa [ofDigits] using happend

section DigitsIn

variable {base : Nat}

/-- The fuel suffices, so the digits of the quotients by the base are put before `low`. -/
theorem digitsOnto_eq (hbase : 2 ≤ base) {fuel n : Nat} (hfuel : n < base ^ fuel)
    (low : List Nat) : ofDigits base (digitsOnto base fuel n low) =
      n * base ^ low.length + ofDigits base low := by
  induction fuel generalizing n low with
  | zero =>
    obtain rfl : n = 0 := by simpa using hfuel
    simp [digitsOnto]
  | succ fuel ih =>
    rw [digitsOnto]
    split
    · exact ofDigits_cons base n low
    · have hquotient : n / base < base ^ fuel := by
        rw [Nat.div_lt_iff_lt_mul (by omega), ← pow_succ]
        exact hfuel
      rw [ih hquotient, List.length_cons, ofDigits_cons, pow_succ]
      calc _ = (n / base * base + n % base) * base ^ low.length + ofDigits base low := by ring
        _ = _ := by rw [Nat.div_add_mod']

theorem lt_pow_fuel (hbase : 2 ≤ base) (n : Nat) : n < base ^ (n.log2 + 1) :=
  Nat.lt_log2_self.trans_le (Nat.pow_le_pow_left hbase _)

/-- The digits of a number denote it. -/
theorem ofDigits_digitsIn (hbase : 2 ≤ base) (n : Nat) : ofDigits base (digitsIn base n) = n := by
  rw [digitsIn, digitsOnto_eq hbase (lt_pow_fuel hbase n)]
  simp [ofDigits]

theorem mem_digitsOnto (hbase : 2 ≤ base) {fuel n d : Nat} (hfuel : n < base ^ fuel)
    {low : List Nat} (hlow : ∀ d ∈ low, d < base) (hd : d ∈ digitsOnto base fuel n low) :
    d < base := by
  induction fuel generalizing n low with
  | zero => exact hlow d hd
  | succ fuel ih =>
    rw [digitsOnto] at hd
    split at hd
    next hlt =>
      rcases List.mem_cons.mp hd with rfl | hd
      · exact hlt
      · exact hlow d hd
    · have hquotient : n / base < base ^ fuel := by
        rw [Nat.div_lt_iff_lt_mul (by omega), ← pow_succ]
        exact hfuel
      refine ih hquotient (fun e he => ?_) hd
      rcases List.mem_cons.mp he with rfl | he
      · exact Nat.mod_lt _ (by omega)
      · exact hlow e he

theorem lt_of_mem_digitsIn (hbase : 2 ≤ base) {n d : Nat} (hd : d ∈ digitsIn base n) : d < base :=
  mem_digitsOnto hbase (lt_pow_fuel hbase n) (fun _ he => absurd he List.not_mem_nil) hd

/-- The first digit is zero only for zero itself. -/
theorem digitsOnto_head (hbase : 2 ≤ base) {fuel n : Nat} (hfuel : n < base ^ (fuel + 1))
    (low : List Nat) : ∃ d ds, digitsOnto base (fuel + 1) n low = d :: ds ∧
      (d = 0 → n = 0 ∧ ds = low) := by
  induction fuel generalizing n low with
  | zero =>
    have hlt : n < base := by simpa using hfuel
    exact ⟨n, low, by simp [digitsOnto, hlt], fun h => ⟨h, rfl⟩⟩
  | succ fuel ih =>
    rw [digitsOnto]
    split
    · exact ⟨n, low, rfl, fun h => ⟨h, rfl⟩⟩
    next hge =>
      have hquotient : n / base < base ^ (fuel + 1) := by
        rw [Nat.div_lt_iff_lt_mul (by omega), ← pow_succ]
        exact hfuel
      obtain ⟨d, ds, hdigits, hzero⟩ := ih hquotient (n % base :: low)
      refine ⟨d, ds, hdigits, fun hd => ?_⟩
      have hpos : 0 < n / base := Nat.div_pos (by omega) (by omega)
      exact absurd (hzero hd).1 hpos.ne'

theorem digitsIn_head (hbase : 2 ≤ base) (n : Nat) :
    ∃ d ds, digitsIn base n = d :: ds ∧ (d = 0 → n = 0 ∧ ds = []) :=
  digitsOnto_head hbase (lt_pow_fuel hbase n) []

theorem digitsIn_ne_nil (hbase : 2 ≤ base) (n : Nat) : digitsIn base n ≠ [] := by
  obtain ⟨d, ds, h, -⟩ := digitsIn_head hbase n
  simp [h]

end DigitsIn

/-! ## Characters of digits -/

theorem toNat_digitChar {d : Nat} (hd : d < 10) : (digitChar d).toNat = 48 + d := by
  interval_cases d <;> rfl

theorem isDigit_digitChar {d : Nat} (hd : d < 10) : (digitChar d).isDigit = true := by
  interval_cases d <;> rfl

theorem digitOf?_digitChar {d : Nat} (hd : d < 16) : digitOf? (digitChar d) = some d := by
  interval_cases d <;> rfl

theorem digitOf?_toUpper {d : Nat} (hd : d < 16) : digitOf? (digitChar d).toUpper = some d := by
  interval_cases d <;> rfl

theorem natText_eq (n : Nat) : natText n = (digitsIn 10 n).map digitChar :=
  rfl

theorem isDigit_of_mem_natText {n : Nat} {c : Char} (hc : c ∈ natText n) : c.isDigit = true := by
  obtain ⟨d, hd, rfl⟩ := List.mem_map.mp hc
  exact isDigit_digitChar (lt_of_mem_digitsIn (by norm_num) hd)

theorem isDigit_of_mem_zeros {n : Nat} {c : Char} (hc : c ∈ zeros n) : c.isDigit = true := by
  obtain rfl := List.eq_of_mem_replicate hc
  rfl

theorem natText_ne_nil (n : Nat) : natText n ≠ [] := by
  simpa [natText] using digitsIn_ne_nil (by norm_num : 2 ≤ 10) n

/-- Only zero is written with a zero in front. -/
theorem natText_head {n : Nat} (hn : n ≠ 0) :
    ∃ c t, natText n = c :: t ∧ c ≠ '0' := by
  obtain ⟨d, ds, hdigits, hzero⟩ := digitsIn_head (by norm_num : 2 ≤ 10) n
  have hd : d < 10 := lt_of_mem_digitsIn (by norm_num) (hdigits ▸ List.mem_cons_self)
  refine ⟨digitChar d, ds.map digitChar, by rw [natText_eq, hdigits]; rfl, ?_⟩
  intro hchar
  have hnat := toNat_digitChar hd
  rw [hchar] at hnat
  have hd0 : d = 0 := by
    have hcode : '0'.toNat = 48 := rfl
    omega
  exact hn (hzero hd0).1

theorem pow_le_ofDigits {base d : Nat} (hd : d ≠ 0) (ds : List Nat) :
    base ^ ds.length ≤ ofDigits base (d :: ds) := by
  rw [ofDigits_cons]
  exact (Nat.le_mul_of_pos_left _ (Nat.pos_of_ne_zero hd)).trans (Nat.le_add_right _ _)

/-- Numbers below a power of the base have no more digits than it has zeros. -/
theorem length_digitsIn_le {base n k : Nat} (hbase : 2 ≤ base) (hk : 0 < k) (hn : n < base ^ k) :
    (digitsIn base n).length ≤ k := by
  obtain ⟨d, ds, hdigits, hzero⟩ := digitsIn_head hbase n
  rw [hdigits, List.length_cons]
  by_cases hd : d = 0
  · rw [(hzero hd).2]
    exact hk
  · have hle : base ^ ds.length ≤ n := by
      rw [← ofDigits_digitsIn hbase n, hdigits]
      exact pow_le_ofDigits hd ds
    exact (Nat.pow_lt_pow_iff_right hbase).mp (hle.trans_lt hn)

theorem length_natText_le {n k : Nat} (hk : 0 < k) (hn : n < 10 ^ k) :
    (natText n).length ≤ k := by
  rw [natText_eq, List.length_map]
  exact length_digitsIn_le (by norm_num) hk hn

theorem ofDigits_replicate_zero (base n : Nat) : ofDigits base (List.replicate n 0) = 0 := by
  induction n with
  | zero => rfl
  | succ n ih => rw [List.replicate_succ, ofDigits_cons, ih, Nat.zero_mul]

/-! ## Reading rows of digits -/

theorem digitsValue_eq (s : Text) :
    Text.digitsValue s = ofDigits 10 (s.map fun c => (Text.digitValue? c).getD 0) := by
  rw [Text.digitsValue, ofDigits, List.foldl_map]

theorem digitsValue_append (s t : Text) :
    Text.digitsValue (s ++ t) =
      Text.digitsValue s * 10 ^ t.length + Text.digitsValue t := by
  rw [digitsValue_eq, digitsValue_eq, digitsValue_eq, List.map_append, ofDigits_append,
    List.length_map]

theorem digitValue?_digitChar {d : Nat} (hd : d < 10) :
    Text.digitValue? (digitChar d) = some d := by
  interval_cases d <;> rfl

theorem digitsValue_natText (n : Nat) : Text.digitsValue (natText n) = n := by
  have hdigits : (natText n).map (fun c => (Text.digitValue? c).getD 0) = digitsIn 10 n := by
    rw [natText_eq, List.map_map]
    refine List.map_congr_left (fun d hd => ?_) |>.trans (List.map_id _)
    rw [Function.comp, digitValue?_digitChar (lt_of_mem_digitsIn (by norm_num) hd)]
    rfl
  rw [digitsValue_eq, hdigits, ofDigits_digitsIn (by norm_num)]

/-- The digits of every script lie in rows of ten. -/
theorem digitValue?_lt {c : Char} {d : Nat} (h : Text.digitValue? c = some d) : d < 10 := by
  rw [Text.digitValue?] at h
  split at h
  next hbasic =>
    split at h
    next hdigit =>
      cases h
      have hbounds := Text.basicDigit_iff.mp hdigit
      omega
    · cases h
  · obtain ⟨z, hz, rfl⟩ := Option.map_eq_some_iff.mp h
    have hrow := List.find?_some hz
    rw [Bool.and_eq_true, decide_eq_true_iff, decide_eq_true_iff] at hrow
    omega

theorem digitsValue_lt (s : Text) : Text.digitsValue s < 10 ^ s.length := by
  induction s using List.reverseRecOn with
  | nil => decide
  | append_singleton s c ih =>
    have hlast : Text.digitsValue [c] < 10 := by
      have hvalue : Text.digitsValue [c] = 10 * 0 + (Text.digitValue? c).getD 0 := rfl
      rw [hvalue, Nat.mul_zero, Nat.zero_add]
      cases hdigit : Text.digitValue? c with
      | none => decide
      | some d => exact digitValue?_lt hdigit
    rw [digitsValue_append, List.length_append, List.length_singleton, pow_one, pow_succ]
    omega

theorem lt_pow_digitLimit {n : Nat} (h : n ≤ digitLimit) : n < 10 ^ digitLimit :=
  h.trans_lt (Nat.lt_pow_self (by decide))

/-- A row of digits that is read is not too long. -/
theorem readNat?_lt {digits : Text} {n : Nat} (h : readNat? digits = some n) :
    n < 10 ^ digitLimit := by
  rw [readNat?] at h
  split at h
  · cases h
  next hlimit =>
    cases h
    exact (digitsValue_lt digits).trans_le
      (Nat.pow_le_pow_right (by decide) (Nat.le_of_not_lt hlimit))

theorem digitsValue_zeros (n : Nat) : Text.digitsValue (zeros n) = 0 := by
  induction n with
  | zero => rfl
  | succ n ih =>
    rw [zeros, List.replicate_succ', digitsValue_append, ← zeros, ih]
    rfl

end DeskCalc.Number

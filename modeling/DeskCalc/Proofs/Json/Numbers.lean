import DeskCalc.Json.Reader
import DeskCalc.Json.Writer
import DeskCalc.Proofs.Number.Digits
import DeskCalc.Proofs.Number.Readback
import DeskCalc.Proofs.Text.Run

/-!
# Numbers in documents

An integer is read back from its text unless it has too many digits.  A finite double is read back
from its text bit by bit, because its shortest decimal is: the layout only chooses between numerals
of the same value.
-/

namespace DeskCalc.Json

open Number (Decimal Numeral natText zeros signBit unsignedBits)
open Text (StopsBefore takeWhile_run dropWhile_run stopsBefore_cons)

/-! ## The parts of a numeral -/

/-- The characters that would continue a number. -/
def isNumberPart (c : Char) : Bool :=
  c.isDigit || c == '.' || c == 'e' || c == 'E'

section Parts

variable {digits rest : Text}

theorem stopsBefore_mono {p q : Char → Bool} (h : ∀ c, p c = true → q c = true)
    (hstop : StopsBefore q rest) : StopsBefore p rest := by
  cases rest with
  | nil => rfl
  | cons c rest =>
    rw [stopsBefore_cons] at hstop ⊢
    exact Bool.eq_false_iff.mpr fun hc => Bool.eq_false_iff.mp hstop (h c hc)

theorem stopsBefore_isDigit (h : StopsBefore isNumberPart rest) :
    StopsBefore Char.isDigit rest :=
  stopsBefore_mono (fun c hc => by simp [isNumberPart, hc]) h

theorem readWhole?_zero : readWhole? ('0' :: rest) = some (['0'], rest) :=
  rfl

theorem readWhole?_digits (hdigits : ∀ c ∈ digits, c.isDigit = true)
    (hhead : ∃ c t, digits = c :: t ∧ c ≠ '0') (hrest : StopsBefore Char.isDigit rest) :
    readWhole? (digits ++ rest) = some (digits, rest) := by
  obtain ⟨c, t, rfl, hc⟩ := hhead
  have hzero : ∀ u, (c :: t) ++ rest ≠ '0' :: u := by
    intro u hu
    exact hc (List.cons.inj hu).1
  rw [readWhole?]
  · rw [takeWhile_run hdigits hrest, dropWhile_run hdigits hrest]
  · exact hzero

theorem readFraction_digits (hdigits : ∀ c ∈ digits, c.isDigit = true) (hne : digits ≠ [])
    (hrest : StopsBefore Char.isDigit rest) :
    readFraction ('.' :: (digits ++ rest)) = (digits, rest) := by
  obtain ⟨c, t, rfl⟩ := List.exists_cons_of_ne_nil hne
  rw [readFraction, takeWhile_run hdigits hrest, dropWhile_run hdigits hrest]

theorem readFraction_none (h : StopsBefore (· == '.') rest) : readFraction rest = ([], rest) := by
  unfold readFraction
  split
  · simp [stopsBefore_cons] at h
  · rfl

/-- The value of a written exponent. -/
def powerValue (negative : Bool) (digits : Text) : Int :=
  if negative then -(Text.digitsValue digits : Int) else Text.digitsValue digits

theorem readPower?_digits (negative : Bool) (hdigits : ∀ c ∈ digits, c.isDigit = true)
    (hne : digits ≠ []) (hrest : StopsBefore Char.isDigit rest) :
    readPower? ('e' :: (if negative then '-' else '+') :: (digits ++ rest)) =
      some (powerValue negative digits, rest) := by
  obtain ⟨c, t, rfl⟩ := List.exists_cons_of_ne_nil hne
  have hsign : Number.readSign ((if negative then '-' else '+') :: (c :: t ++ rest)) =
      (negative, c :: t ++ rest) := by
    cases negative <;> rfl
  rw [readPower?, if_pos (.inl rfl), hsign]
  simp only [takeWhile_run hdigits hrest, dropWhile_run hdigits hrest]
  rfl

theorem readPower?_none (h : StopsBefore isNumberPart rest) : readPower? rest = none := by
  cases rest with
  | nil => rfl
  | cons c rest =>
    have hc : c ≠ 'e' ∧ c ≠ 'E' := by
      rw [stopsBefore_cons] at h
      constructor
      · rintro rfl
        exact absurd h (by decide)
      · rintro rfl
        exact absurd h (by decide)
    rw [readPower?, if_neg (by simp [hc])]

end Parts

/-! ## Numerals of doubles -/

/-- The text of a fraction, with its point. -/
def fractionText (fraction : Text) : Text :=
  if fraction = [] then [] else '.' :: fraction

/-- The text of an exponent, given by its sign and its digits. -/
def powerText : Option (Bool × Text) → Text
  | none => []
  | some (negative, digits) => 'e' :: (if negative then '-' else '+') :: digits

/-- The value of an exponent, given by its sign and its digits. -/
def powerOf : Option (Bool × Text) → Int
  | none => 0
  | some (negative, digits) => powerValue negative digits

/-- The parts of a numeral that is read as a double. -/
structure IsDouble (whole fraction : Text) (power : Option (Bool × Text)) : Prop where
  whole_digits : whole = ['0'] ∨
    (∀ c ∈ whole, c.isDigit = true) ∧ ∃ c t, whole = c :: t ∧ c ≠ '0'
  fraction_digits : ∀ c ∈ fraction, c.isDigit = true
  power_digits : ∀ p ∈ power, (∀ c ∈ p.2, c.isDigit = true) ∧ p.2 ≠ []
  has_part : fraction ≠ [] ∨ power ≠ none

section Doubles

variable {whole fraction rest : Text} {power : Option (Bool × Text)}

theorem stopsBefore_powerText (power : Option (Bool × Text)) (h : StopsBefore isNumberPart rest) :
    StopsBefore (fun c => c.isDigit || c == '.') (powerText power ++ rest) := by
  cases power with
  | none => exact stopsBefore_mono (fun c hc => by simp_all [isNumberPart]) h
  | some p =>
    rw [powerText, List.cons_append, stopsBefore_cons]
    decide

theorem readMagnitude_double (hparts : IsDouble whole fraction power)
    (hrest : StopsBefore isNumberPart rest) (negative : Bool) :
    readMagnitude negative (whole ++ (fractionText fraction ++ (powerText power ++ rest))) =
      .ok (float (Number.applySign negative (Numeral.value ⟨whole, fraction, powerOf power⟩)),
        rest) := by
  have htail := stopsBefore_powerText power hrest
  have hfraction : readFraction (fractionText fraction ++ (powerText power ++ rest)) =
      (fraction, powerText power ++ rest) := by
    rw [fractionText]
    split
    next hnil =>
      rw [hnil]
      exact readFraction_none (stopsBefore_mono (fun c hc => by simp_all) htail)
    next hne =>
      exact readFraction_digits hparts.fraction_digits hne
        (stopsBefore_mono (fun c hc => by simp_all) htail)
  have hwhole : readWhole? (whole ++ (fractionText fraction ++ (powerText power ++ rest))) =
      some (whole, fractionText fraction ++ (powerText power ++ rest)) := by
    rcases hparts.whole_digits with rfl | ⟨hdigits, hhead⟩
    · exact readWhole?_zero
    · apply readWhole?_digits hdigits hhead
      rw [fractionText]
      split
      · exact stopsBefore_mono (fun c hc => by simp_all) htail
      · rw [List.cons_append, stopsBefore_cons]
        decide
  have hpower : (readPower? (powerText power ++ rest)).getD (0, powerText power ++ rest) =
      (powerOf power, rest) ∧
      (readPower? (powerText power ++ rest)).isNone = power.isNone := by
    cases power with
    | none =>
      rw [powerText, List.nil_append, readPower?_none hrest]
      exact ⟨rfl, rfl⟩
    | some p =>
      obtain ⟨sign, digits⟩ := p
      obtain ⟨hdigits, hne⟩ := hparts.power_digits (sign, digits) rfl
      rw [powerText, List.cons_append, List.cons_append,
        readPower?_digits sign hdigits hne (stopsBefore_isDigit hrest)]
      exact ⟨rfl, rfl⟩
  have hsome : (fraction.isEmpty && power.isNone) = false := by
    rcases hparts.has_part with hne | hne
    · simp [hne]
    · cases power with
      | none => exact absurd rfl hne
      | some p => simp
  rw [readMagnitude, hwhole]
  simp only [hfraction, hpower.2, hsome, hpower.1, Bool.false_eq_true, if_false]

end Doubles

/-! ## The texts of doubles -/

section Layouts

open Number (positional scientific documentLayout pointAfterFirst)

/-- A numeral of the value `d`. -/
def IsNumeralOf (d : Decimal) (text : Text) : Prop :=
  ∃ whole fraction power, IsDouble whole fraction power ∧
    text = whole ++ (fractionText fraction ++ powerText power) ∧
    Decimal.value ⟨Text.digitsValue (whole ++ fraction), powerOf power - fraction.length⟩ = d.value

variable {d : Decimal}

theorem isNumeralOf_scientific (hd : d.digits ≠ 0) (width : Nat) :
    IsNumeralOf d (scientific width (natText d.digits)
      ((natText d.digits).length + d.exponent - 1)) := by
  obtain ⟨c, t, hdigits, hc⟩ := Number.natText_head hd
  have hdigit (e : Char) (he : e ∈ c :: t) : e.isDigit = true :=
    Number.isDigit_of_mem_natText (hdigits ▸ he)
  have hvalue : Text.digitsValue (c :: t) = d.digits := by
    rw [← hdigits, Number.digitsValue_natText]
  set power : Int := (natText d.digits).length + d.exponent - 1 with hpower
  have hlength : power - t.length = d.exponent := by
    rw [hpower, hdigits, List.length_cons]
    push_cast
    ring
  set exponent := zeros (width - (natText power.natAbs).length) ++ natText power.natAbs
  have hexponent : powerValue (power < 0) exponent = power := by
    rw [powerValue, Number.digitsValue_append, Number.digitsValue_zeros,
      Number.digitsValue_natText, Nat.zero_mul, Nat.zero_add]
    split
    next hneg =>
      have hlt := of_decide_eq_true hneg
      omega
    next hneg =>
      have hge := mt decide_eq_true hneg
      omega
  refine ⟨[c], t, some (power < 0, exponent), ⟨.inr ⟨?_, c, [], rfl, hc⟩, ?_, ?_, ?_⟩, ?_, ?_⟩
  · simpa using hdigit c List.mem_cons_self
  · exact fun e he => hdigit e (List.mem_cons_of_mem c he)
  · rintro p hp
    cases hp
    constructor
    · intro e he
      rcases List.mem_append.mp he with he | he
      · exact Number.isDigit_of_mem_zeros he
      · exact Number.isDigit_of_mem_natText he
    · simp [exponent, Number.natText_ne_nil]
  · exact .inr (by simp)
  · rw [scientific, hdigits]
    cases t with
    | nil => simp [pointAfterFirst, fractionText, powerText, exponent]
    | cons e t => simp [pointAfterFirst, fractionText, powerText, exponent]
  · rw [List.singleton_append, hvalue, powerOf, hexponent, hlength]

/-- Below one, zeros stand between the point and the digits. -/
theorem isNumeralOf_small {places : Nat}
    (hexponent : d.exponent + (natText d.digits).length = -places) :
    IsNumeralOf d ('0' :: '.' :: zeros places ++ natText d.digits) := by
  have hne : natText d.digits ≠ [] := Number.natText_ne_nil _
  refine ⟨['0'], zeros places ++ natText d.digits, none, ⟨.inl rfl, ?_, nofun, ?_⟩, ?_, ?_⟩
  · intro e he
    rcases List.mem_append.mp he with he | he
    · exact Number.isDigit_of_mem_zeros he
    · exact Number.isDigit_of_mem_natText he
  · exact .inl (by simp [hne])
  · simp [fractionText, powerText, hne]
  · have hzero : Text.digitsValue ['0'] = 0 := rfl
    have hlength : (0 : Int) - (zeros places ++ natText d.digits).length = d.exponent := by
      rw [List.length_append, zeros, List.length_replicate]
      omega
    rw [Number.digitsValue_append, Number.digitsValue_append, hzero, Number.digitsValue_zeros,
      Number.digitsValue_natText, powerOf, hlength]
    simp

/-- An integer is written with the zeros that it ends in and with a zero behind the point. -/
theorem isNumeralOf_whole (hd : d.digits ≠ 0) {more : Nat} (hexponent : d.exponent = more) :
    IsNumeralOf d (natText d.digits ++ zeros more ++ ['.', '0']) := by
  obtain ⟨c, t, hdigits, hc⟩ := Number.natText_head hd
  refine ⟨natText d.digits ++ zeros more, ['0'], none,
    ⟨.inr ⟨?_, ?_⟩, ?_, nofun, .inl (by simp)⟩, ?_, ?_⟩
  · intro e he
    rcases List.mem_append.mp he with he | he
    · exact Number.isDigit_of_mem_natText he
    · exact Number.isDigit_of_mem_zeros he
  · rw [hdigits]
    exact ⟨c, t ++ zeros more, rfl, hc⟩
  · simp
  · simp [fractionText, powerText]
  · have hzeros : (zeros more).length = more := List.length_replicate
    have hzero : Text.digitsValue ['0'] = 0 := rfl
    rw [Number.digitsValue_append, Number.digitsValue_append, Number.digitsValue_natText,
      Number.digitsValue_zeros, hzeros, hzero, powerOf, Decimal.value, Decimal.value, hexponent]
    simp only [List.length_singleton, zpow_natCast]
    push_cast
    ring

/-- Otherwise the point stands between two digits. -/
theorem isNumeralOf_pointed (hd : d.digits ≠ 0) {whole : Nat}
    (hlong : whole + 1 < (natText d.digits).length)
    (hexponent : d.exponent + (natText d.digits).length = whole + 1) :
    IsNumeralOf d ((natText d.digits).take (whole + 1) ++
      '.' :: (natText d.digits).drop (whole + 1)) := by
  obtain ⟨c, t, hdigits, hc⟩ := Number.natText_head hd
  have htake : (natText d.digits).take (whole + 1) = c :: t.take whole := by
    rw [hdigits, List.take_succ_cons]
  have hne : (natText d.digits).drop (whole + 1) ≠ [] := by
    rw [Ne, List.drop_eq_nil_iff]
    exact Nat.not_le.mpr hlong
  refine ⟨(natText d.digits).take (whole + 1), (natText d.digits).drop (whole + 1), none,
    ⟨.inr ⟨?_, c, _, htake, hc⟩, ?_, nofun, .inl hne⟩, ?_, ?_⟩
  · exact fun e he => Number.isDigit_of_mem_natText (List.mem_of_mem_take he)
  · exact fun e he => Number.isDigit_of_mem_natText (List.mem_of_mem_drop he)
  · simp [fractionText, powerText, hne]
  · have hlength : (0 : Int) - ((natText d.digits).drop (whole + 1)).length = d.exponent := by
      rw [List.length_drop]
      omega
    rw [List.take_append_drop, Number.digitsValue_natText, powerOf, hlength]

theorem isNumeralOf_positional (hd : d.digits ≠ 0) :
    IsNumeralOf d (positional true (natText d.digits)
      ((natText d.digits).length + d.exponent - 1)) := by
  have hpos : 0 < (natText d.digits).length :=
    List.length_pos_iff.mpr (Number.natText_ne_nil _)
  simp only [positional]
  split
  · exact isNumeralOf_small (by omega)
  · split
    · exact isNumeralOf_whole hd (by omega)
    · exact isNumeralOf_pointed hd (by omega) (by omega)

theorem isNumeralOf_decimal (hd : d.digits ≠ 0) :
    IsNumeralOf d (documentLayout.decimal d) := by
  simp only [Number.Layout.decimal]
  split
  · exact isNumeralOf_positional hd
  · exact isNumeralOf_scientific hd _

theorem applySign_signBit {x y : Float} (hx : x.isFinite = true) (hsign : signBit y = false)
    (hbits : unsignedBits y = unsignedBits x) : Number.applySign (signBit x) y = x := by
  have hy : y.isFinite = true := by
    rw [Number.isFinite_iff, hbits]
    exact (Number.isFinite_iff x).mp hx
  rw [Number.applySign]
  split
  next hneg =>
    obtain ⟨hflip, hsame⟩ := Number.neg_parts hy
    exact Number.eq_of_parts (by rw [hflip, hsign, hneg]; rfl) (hsame.trans hbits)
  next hpos =>
    have hpos' : signBit x = false := by simpa using hpos
    exact Number.eq_of_parts (hsign.trans hpos'.symm) hbits

/-- A finite double is written as a sign and a numeral whose nearest double it is. -/
theorem exists_numeral {x : Float} (hx : x.isFinite = true) :
    ∃ d text, Decimal.bits d = unsignedBits x ∧ IsNumeralOf d text ∧
      documentLayout.text x = Number.signed (signBit x) text := by
  rw [Number.Layout.text, Number.isNaN_of_isFinite hx, Number.isInf_of_isFinite hx]
  simp only [Bool.false_eq_true, if_false]
  by_cases hzero : unsignedBits x = 0
  · have hbeq := (Number.beq_zero_iff hx).mpr hzero
    refine ⟨⟨0, 0⟩, ['0', '.', '0'], ?_, ?_, ?_⟩
    · rw [hzero]
      exact Decimal.bits_eq_zero rfl
    · refine ⟨['0'], ['0'], none, ⟨.inl rfl, by simp, nofun, .inl (by simp)⟩, rfl, ?_⟩
      have hvalue : Text.digitsValue (['0'] ++ ['0']) = 0 := rfl
      rw [Decimal.value, Decimal.value, hvalue]
      simp
    · rw [if_pos hbeq]
      rfl
  · have hbeq : ¬(x == 0) = true := mt (Number.beq_zero_iff hx).mp hzero
    refine ⟨Number.shortest x, documentLayout.decimal (Number.shortest x),
      Number.bits_shortest hx, isNumeralOf_decimal (Number.shortest_digits_ne_zero hx hzero), ?_⟩
    have hsign : decide (x < 0) = signBit x := by
      rw [Bool.eq_iff_iff, decide_eq_true_iff, Number.lt_zero_iff hx]
      exact and_iff_left hzero
    rw [if_neg hbeq, hsign]

end Layouts

/-! ## Reading numbers back -/

theorem find?_words {c : Char} {s : Text} (hc : c.isDigit = true) :
    words.find? (fun w => w.1.isPrefixOf (c :: s)) = none ∧
      words.find? (fun w => w.1.isPrefixOf ('-' :: c :: s)) = none := by
  have hne {e : Char} (he : e.isDigit = false) : (e == c) = false := by
    rw [beq_eq_false_iff_ne]
    rintro rfl
    rw [he] at hc
    cases hc
  constructor
  · simp [words, List.isPrefixOf, hne]
  · simp [words, List.isPrefixOf, hne]

theorem readAtom_digit {c : Char} {s : Text} (hc : c.isDigit = true) :
    readAtom (c :: s) = readMagnitude false (c :: s) ∧
      readAtom ('-' :: c :: s) = readMagnitude true (c :: s) := by
  obtain ⟨hplain, hminus⟩ := @find?_words c s hc
  have hne : c ≠ '-' := by
    rintro rfl
    cases hc
  constructor
  · rw [readAtom, hplain]
    simp [hne]
  · rw [readAtom, hminus]

theorem readAtom_signed (negative : Bool) {c : Char} {s : Text} (hc : c.isDigit = true) :
    readAtom (Number.signed negative (c :: s)) = readMagnitude negative (c :: s) := by
  cases negative with
  | true => exact (readAtom_digit hc).2
  | false => exact (readAtom_digit hc).1

/-- A finite double is read back from its text. -/
theorem readAtom_float {x : Float} (hx : x.isFinite = true) {rest : Text}
    (hrest : StopsBefore isNumberPart rest) :
    readAtom (Number.documentLayout.text x ++ rest) = .ok (float x, rest) := by
  obtain ⟨d, text, hbits, ⟨whole, fraction, power, hparts, rfl, hvalue⟩, htext⟩ :=
    exists_numeral hx
  obtain ⟨c, t, hhead, hc⟩ : ∃ c t, whole = c :: t ∧ c.isDigit = true := by
    rcases hparts.whole_digits with rfl | ⟨hdigits, c, t, rfl, -⟩
    · exact ⟨'0', [], rfl, rfl⟩
    · exact ⟨c, t, rfl, hdigits c List.mem_cons_self⟩
  have hsigned (s u : Text) :
      Number.signed (signBit x) s ++ u = Number.signed (signBit x) (s ++ u) := by
    cases signBit x <;> rfl
  have hread := readMagnitude_double hparts hrest (signBit x)
  have hfloat : Number.applySign (signBit x) (Numeral.value ⟨whole, fraction, powerOf power⟩) =
      x := by
    obtain ⟨hsign, hvalueBits⟩ := Number.ofDecimal_parts false
      (Text.digitsValue (whole ++ fraction)) (powerOf power - fraction.length)
    exact applySign_signBit hx hsign
      (hvalueBits.trans ((Decimal.bits_congr hvalue).trans hbits))
  rw [hfloat] at hread
  rw [htext, hsigned, List.append_assoc, List.append_assoc]
  subst hhead
  exact (readAtom_signed _ hc).trans hread

/-- An integer of not too many digits is read back from its text. -/
theorem readAtom_int {n : Int} (hn : (natText n.natAbs).length ≤ Number.digitLimit) {rest : Text}
    (hrest : StopsBefore isNumberPart rest) :
    readAtom (Number.intText n ++ rest) = .ok (int n, rest) := by
  obtain ⟨c, t, hdigits, hhead⟩ : ∃ c t, natText n.natAbs = c :: t ∧
      (c :: t = ['0'] ∨ c ≠ '0') := by
    by_cases hzero : n.natAbs = 0
    · rw [hzero]
      exact ⟨'0', [], rfl, .inl rfl⟩
    · obtain ⟨c, t, hdigits, hc⟩ := Number.natText_head hzero
      exact ⟨c, t, hdigits, .inr hc⟩
  have hall (e : Char) (he : e ∈ c :: t) : e.isDigit = true :=
    Number.isDigit_of_mem_natText (hdigits ▸ he)
  have hwhole : readWhole? (c :: t ++ rest) = some (c :: t, rest) := by
    rcases hhead with hzero | hc
    · rw [hzero]
      exact readWhole?_zero
    · exact readWhole?_digits hall ⟨c, t, rfl, hc⟩ (stopsBefore_isDigit hrest)
  have hpoint : StopsBefore (· == '.') rest :=
    stopsBefore_mono (fun e he => by simp_all [isNumberPart]) hrest
  have hvalue : Number.readNat? (c :: t) = some n.natAbs := by
    rw [Number.readNat?, ← hdigits, Number.digitsValue_natText, if_neg (by omega)]
  have hread (negative : Bool) : readMagnitude negative (c :: t ++ rest) =
      .ok (int (if negative then -(n.natAbs : Int) else n.natAbs), rest) := by
    rw [readMagnitude, hwhole]
    simp only [readFraction_none hpoint, readPower?_none hrest, hvalue]
    rfl
  have hc := hall c List.mem_cons_self
  rw [Number.intText, hdigits]
  split
  next hneg =>
    rw [List.cons_append, List.cons_append, (readAtom_digit hc).2, ← List.cons_append, hread,
      if_pos rfl, show -(n.natAbs : Int) = n by omega]
  next hnonneg =>
    rw [List.cons_append, (readAtom_digit hc).1, ← List.cons_append, hread,
      if_neg Bool.false_ne_true, show (n.natAbs : Int) = n by omega]

end DeskCalc.Json

import DeskCalc.Proofs.Expression.Literal
import DeskCalc.Proofs.Json.Numbers
import DeskCalc.Proofs.Text.Alphabet
import DeskCalc.Proofs.Text.Words

/-!
# Spellings of numbers

Digits, a fraction behind a point and an exponent behind an `e`: so numbers are written by those who
enter expressions, and so the texts of finite doubles are, apart from their signs.  A spelling is
read as the numeral that it spells wherever nothing follows that would continue it, and it has no
word that could be a name.
-/

namespace DeskCalc.Expression

open Json (isNumberPart)
open Number (Numeral Decimal natText positional scientific)
open Text (StopsBefore Nameless)

/-- Digits of the basic alphabet, at least one. -/
structure Digits where
  text : Text
  ne_nil : text ≠ []
  areDigits : AreDigits text

/-- An exponent, with or without a sign. -/
structure Power where
  /-- whether the sign is a minus, if there is a sign -/
  negative? : Option Bool
  digits : Digits

/-- A number without a sign as it is written. -/
structure Spelling where
  whole : Digits
  fraction? : Option Digits
  power? : Option Power

namespace Power

/-- How an exponent is written. -/
def text (p : Power) : Text :=
  match p.negative? with
  | none => 'e' :: p.digits.text
  | some negative => 'e' :: (if negative then '-' else '+') :: p.digits.text

/-- The value of an exponent. -/
def value (p : Power) : Int :=
  if p.negative? = some true then -(Text.digitsValue p.digits.text : Int)
  else Text.digitsValue p.digits.text

theorem exponent (p : Power) : Exponent p.value p.text := by
  obtain ⟨negative?, digits⟩ := p
  rcases negative? with _ | _ | _
  · exact .bare (.inl rfl) digits.ne_nil digits.areDigits
  · exact .plus (.inl rfl) digits.ne_nil digits.areDigits
  · exact .minus (.inl rfl) digits.ne_nil digits.areDigits

end Power

namespace Spelling

/-- The digits behind the point. -/
def fraction (n : Spelling) : Text :=
  n.fraction?.elim [] Digits.text

/-- The point and the digits behind it. -/
def fractionText (n : Spelling) : Text :=
  n.fraction?.elim [] fun digits => '.' :: digits.text

/-- How the exponent is written. -/
def powerText (n : Spelling) : Text :=
  n.power?.elim [] Power.text

/-- How the number is written. -/
def text (n : Spelling) : Text :=
  n.whole.text ++ (n.fractionText ++ n.powerText)

/-- The numeral that is spelled. -/
def numeral (n : Spelling) : Numeral :=
  ⟨n.whole.text, n.fraction, n.power?.elim 0 Power.value⟩

/-! ## Reading spellings -/

theorem mantissa (n : Spelling) :
    Mantissa n.whole.text n.fraction (n.whole.text ++ n.fractionText) := by
  obtain ⟨whole, fraction?, power?⟩ := n
  cases fraction? with
  | none =>
    simp only [fraction, fractionText, Option.elim_none, List.append_nil]
    exact .whole whole.ne_nil whole.areDigits
  | some digits => exact .pointed (.inl whole.ne_nil) whole.areDigits digits.areDigits

/-- Where nothing follows that would continue it, a spelling is the literal of its numeral. -/
theorem literal (n : Spelling) {rest : Text} (hrest : StopsBefore isNumberPart rest) :
    Literal n.numeral (n.text ++ rest) rest := by
  have hmantissa := n.mantissa
  rw [text, ← List.append_assoc, List.append_assoc]
  obtain ⟨whole, fraction?, _ | power⟩ := n
  · refine .plain hmantissa (Json.stopsBefore_mono (fun c hc => ?_) hrest) ?_
    · simp only [isNumberChar, Bool.or_eq_true] at hc
      rcases hc with hc | hc <;> simp [isNumberPart, hc]
    · rintro p written after hwritten rfl
      obtain ⟨c, t, rfl, rfl | rfl⟩ := hwritten.head <;> cases hrest
  · exact .scientific hmantissa power.exponent (Json.stopsBefore_isDigit hrest)

/-! ## The characters of spellings -/

/-- The characters of spellings. -/
def isChar (c : Char) : Bool :=
  c.isDigit || c == '.' || c == 'e' || c == '+' || c == '-'

theorem isChar_of_isDigit {c : Char} (h : c.isDigit = true) : isChar c = true := by
  simp [isChar, h]

theorem isChar_text (n : Spelling) : ∀ c ∈ n.text, isChar c = true := by
  have hdigits (digits : Digits) : ∀ c ∈ digits.text, isChar c = true :=
    fun c hc => isChar_of_isDigit (digits.areDigits c hc)
  have hfraction : ∀ c ∈ n.fractionText, isChar c = true := by
    rw [fractionText]
    cases n.fraction? with
    | none => exact List.forall_mem_nil _
    | some digits => exact List.forall_mem_cons.mpr ⟨rfl, hdigits digits⟩
  have hpower : ∀ c ∈ n.powerText, isChar c = true := by
    rw [powerText]
    rcases n.power? with _ | ⟨_ | _ | _, digits⟩
    · exact List.forall_mem_nil _
    · exact List.forall_mem_cons.mpr ⟨rfl, hdigits digits⟩
    · exact List.forall_mem_cons.mpr ⟨rfl, List.forall_mem_cons.mpr ⟨rfl, hdigits digits⟩⟩
    · exact List.forall_mem_cons.mpr ⟨rfl, List.forall_mem_cons.mpr ⟨rfl, hdigits digits⟩⟩
  intro c hc
  rcases List.mem_append.mp hc with hc | hc
  · exact hdigits n.whole c hc
  · rcases List.mem_append.mp hc with hc | hc
    · exact hfraction c hc
    · exact hpower c hc

theorem isWord_of_isDigit {c : Char} (h : c.isDigit = true) : Text.isWord c = true := by
  have hsmall : c.toNat < 128 := by
    have hbounds := Text.basicDigit_iff.mp h
    omega
  simp [Text.isWord, hsmall, Char.isAlphanum, h]

/-- Digits, and a word that begins with them. -/
theorem nameless_digits (digits : Digits) {w : Text} (hw : ∀ c ∈ w, Text.isWord c = true) :
    Nameless (digits.text ++ w) := by
  obtain ⟨d, ds, hdigits⟩ := List.exists_cons_of_ne_nil digits.ne_nil
  have hd : d.isDigit = true := digits.areDigits d (by rw [hdigits]; exact List.mem_cons_self)
  refine .word (fun c hc => ?_) ?_
  · rcases List.mem_append.mp hc with hc | hc
    · exact isWord_of_isDigit (digits.areDigits c hc)
    · exact hw c hc
  · rw [hdigits]
    rintro c hc
    cases hc
    exact hd

/-- An exponent belongs to the digits in front of it, at least up to its sign. -/
theorem nameless_power (digits : Digits) (power? : Option Power) :
    Nameless (digits.text ++ power?.elim [] Power.text) := by
  have hmark : ∀ c ∈ ['e'], Text.isWord c = true := List.all_eq_true.mp (by decide)
  have hall (digits : Digits) : ∀ c ∈ digits.text, Text.isWord c = true :=
    fun c hc => isWord_of_isDigit (digits.areDigits c hc)
  have hafter (power : Digits) : Nameless power.text := by
    rw [← List.append_nil power.text]
    exact nameless_digits power (List.forall_mem_nil _)
  have hsigned (sign : Char) (hsign : Text.isWord sign = false) (power : Digits) :
      Nameless (digits.text ++ 'e' :: sign :: power.text) := by
    have hparts : digits.text ++ 'e' :: sign :: power.text =
        (digits.text ++ ['e']) ++ sign :: power.text := by simp
    rw [hparts]
    exact .divided (nameless_digits digits hmark) hsign (hafter power)
  rcases power? with _ | ⟨_ | _ | _, power⟩
  · exact nameless_digits digits (List.forall_mem_nil _)
  · refine nameless_digits digits fun c hc => ?_
    rcases List.mem_cons.mp hc with rfl | hc
    · decide
    · exact hall power c hc
  · exact hsigned '+' (by decide) power
  · exact hsigned '-' (by decide) power

theorem nameless_text (n : Spelling) : Nameless n.text := by
  obtain ⟨whole, fraction?, power?⟩ := n
  cases fraction? with
  | none => exact nameless_power whole power?
  | some digits =>
    have hwhole : Nameless whole.text := by
      rw [← List.append_nil whole.text]
      exact nameless_digits whole (List.forall_mem_nil _)
    exact .divided hwhole (by decide) (nameless_power digits power?)

end Spelling

/-! ## The texts of doubles -/

/-- A numeral that is written for a decimal is spelled. -/
theorem exists_spelling_of_numeral {d : Decimal} {text : Text} (h : Json.IsNumeralOf d text) :
    ∃ n : Spelling, n.text = text ∧
      Decimal.value ⟨Text.digitsValue (n.numeral.whole ++ n.numeral.fraction),
        n.numeral.exponent - n.numeral.fraction.length⟩ = d.value := by
  obtain ⟨whole, fraction, power, hparts, rfl, hvalue⟩ := h
  obtain ⟨hne, hwhole⟩ : whole ≠ [] ∧ AreDigits whole := by
    rcases hparts.whole_digits with rfl | ⟨hdigits, c, t, rfl, -⟩
    · exact ⟨by simp, List.all_eq_true.mp (by decide)⟩
    · exact ⟨by simp, hdigits⟩
  obtain ⟨fraction?, hfraction, hfractionText⟩ : ∃ fraction? : Option Digits,
      fraction?.elim [] Digits.text = fraction ∧
        (fraction?.elim [] fun digits => '.' :: digits.text) = Json.fractionText fraction := by
    by_cases hnil : fraction = []
    · exact ⟨none, hnil.symm, by rw [hnil]; rfl⟩
    · exact ⟨some ⟨fraction, hnil, hparts.fraction_digits⟩, rfl, by
        rw [Json.fractionText, if_neg hnil]; rfl⟩
  obtain ⟨power?, hpower, hpowerText⟩ : ∃ power? : Option Power,
      power?.elim 0 Power.value = Json.powerOf power ∧
        power?.elim [] Power.text = Json.powerText power := by
    rcases hpower : power with _ | ⟨negative, digits⟩
    · exact ⟨none, rfl, rfl⟩
    · obtain ⟨hdigits, hne⟩ := hparts.power_digits (negative, digits) hpower
      refine ⟨some ⟨some negative, digits, hne, hdigits⟩, ?_, rfl⟩
      cases negative <;> rfl
  refine ⟨⟨⟨whole, hne, hwhole⟩, fraction?, power?⟩, ?_, ?_⟩
  · rw [Spelling.text, Spelling.fractionText, Spelling.powerText, hfractionText, hpowerText]
  · simpa only [Spelling.numeral, Spelling.fraction, hfraction, hpower] using hvalue

/-- Answers write the numeral of a decimal, and an integer without a fraction. -/
theorem exists_spelling_decimal {d : Decimal} (hd : d.digits ≠ 0) :
    ∃ n : Spelling, n.text = Number.answerLayout.decimal d ∧
      Decimal.value ⟨Text.digitsValue (n.numeral.whole ++ n.numeral.fraction),
        n.numeral.exponent - n.numeral.fraction.length⟩ = d.value := by
  simp only [Number.Layout.decimal]
  split
  next hplain =>
    set power : Int := (natText d.digits).length + d.exponent - 1 with hpower
    by_cases hinteger : 0 ≤ power ∧ (natText d.digits).length ≤ power.toNat + 1
    · obtain ⟨hnonneg, hfits⟩ := hinteger
      set more := power.toNat + 1 - (natText d.digits).length with hmore
      have htext : positional Number.answerLayout.pointZero (natText d.digits) power =
          natText d.digits ++ Number.zeros more := by
        rw [positional, if_neg (by omega)]
        simp only [if_pos hfits]
        simp [Number.answerLayout, hmore]
      have hdigits : AreDigits (natText d.digits ++ Number.zeros more) := by
        intro c hc
        rcases List.mem_append.mp hc with hc | hc
        · exact Number.isDigit_of_mem_natText hc
        · exact Number.isDigit_of_mem_zeros hc
      have hne : natText d.digits ++ Number.zeros more ≠ [] := by
        simp [Number.natText_ne_nil]
      refine ⟨⟨⟨_, hne, hdigits⟩, none, none⟩, ?_, ?_⟩
      · rw [htext]
        simp [Spelling.text, Spelling.fractionText, Spelling.powerText]
      · have hexponent : d.exponent = more := by omega
        have hzeros : (Number.zeros more).length = more := List.length_replicate
        simp only [Spelling.numeral, Spelling.fraction, Option.elim_none, List.append_nil,
          List.length_nil, Nat.cast_zero, sub_zero]
        rw [Number.digitsValue_append, Number.digitsValue_natText, Number.digitsValue_zeros, hzeros,
          Decimal.value, Decimal.value, hexponent]
        simp
    · have hsame : positional Number.answerLayout.pointZero (natText d.digits) power =
          positional true (natText d.digits) power := by
        rw [positional, positional]
        split
        · rfl
        · simp only
          rw [if_neg (by omega), if_neg (by omega)]
      rw [hsame]
      exact exists_spelling_of_numeral (Json.isNumeralOf_positional hd)
  · exact exists_spelling_of_numeral (Json.isNumeralOf_scientific hd _)

/-- Zero of either sign counts as positive zero. -/
def plainZero (x : Float) : Float :=
  if x == 0 then 0 else x

/-- The text of a finite double is a sign and a spelling, and it denotes the double, up to the sign
of zero. -/
theorem exists_spelling {x : Float} (hx : x.isFinite = true) :
    ∃ n : Spelling, Number.numberText x = Number.signed (x < 0) n.text ∧
      Number.applySign (x < 0) n.numeral.value = plainZero x := by
  rw [Number.numberText, Number.Layout.text, Number.isNaN_of_isFinite hx,
    Number.isInf_of_isFinite hx, plainZero]
  simp only [Bool.false_eq_true, if_false]
  by_cases hzero : Number.unsignedBits x = 0
  · have hnonneg : decide (x < 0) = false := by
      rw [decide_eq_false_iff_not, Number.lt_zero_iff hx]
      exact fun h => h.2 hzero
    rw [if_pos ((Number.beq_zero_iff hx).mpr hzero), if_pos ((Number.beq_zero_iff hx).mpr hzero),
      hnonneg]
    refine ⟨⟨⟨['0'], by simp, List.all_eq_true.mp (by decide)⟩, none, none⟩, rfl, ?_⟩
    obtain ⟨hsign, hbits⟩ := Number.ofDecimal_parts false 0 0
    exact Number.eq_of_parts (hsign.trans (by decide))
      (hbits.trans ((Decimal.bits_eq_zero rfl).trans (by decide)))
  · have hnonzero : ¬(x == 0) = true := mt (Number.beq_zero_iff hx).mp hzero
    have hsign : decide (x < 0) = Number.signBit x := by
      rw [Bool.eq_iff_iff, decide_eq_true_iff, Number.lt_zero_iff hx]
      exact and_iff_left hzero
    obtain ⟨n, htext, hvalue⟩ :=
      exists_spelling_decimal (Number.shortest_digits_ne_zero hx hzero)
    rw [if_neg hnonzero, if_neg hnonzero, hsign]
    refine ⟨n, by rw [htext], ?_⟩
    obtain ⟨hpositive, hbits⟩ := Number.ofDecimal_parts false
      (Text.digitsValue (n.numeral.whole ++ n.numeral.fraction))
      (n.numeral.exponent - n.numeral.fraction.length)
    exact Json.applySign_signBit hx hpositive
      (hbits.trans ((Decimal.bits_congr hvalue).trans (Number.bits_shortest hx)))

end DeskCalc.Expression

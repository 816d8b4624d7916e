import DeskCalc.Number.Binary
import Mathlib.Tactic.NormNum
import Mathlib.Tactic.Ring

/-!
# The bits of doubles

A double is its bits: a sign, a field of eleven bits for the exponent and fifty-two for the
mantissa.  What the operations on doubles say of finite numbers, signs and zeros is said here of
these numbers, so that nothing else has to look into a double.
-/

namespace DeskCalc.Number

open Float.Model Float.Model.UnpackedFloat

theorem twoTo_eq (n : Nat) : twoTo n = 2 ^ n :=
  rfl

theorem twoTo_succ (n : Nat) : twoTo (n + 1) = twoTo n * 2 :=
  pow_succ 2 n

theorem twoTo_pos (n : Nat) : 0 < twoTo n :=
  Nat.two_pow_pos n

theorem twoTo_le {m n : Nat} (h : m ≤ n) : twoTo m ≤ twoTo n :=
  Nat.pow_le_pow_right Nat.two_pos h

theorem tenTo_eq (n : Nat) : tenTo n = 10 ^ n :=
  rfl

theorem fiveTo_eq (n : Nat) : fiveTo n = 5 ^ n :=
  rfl

theorem infinityBits_eq : infinityBits = 2047 * 2 ^ 52 :=
  rfl

/-! ## Parts -/

/-- The bits without the sign. -/
def unsignedBits (x : Float) : Nat :=
  x.toBits.toNat % 2 ^ 63

theorem toBits_lt (x : Float) : x.toBits.toNat < 2 ^ 64 :=
  x.toBits.toNat_lt

theorem eq_of_toBits {x y : Float} (h : x.toBits.toNat = y.toBits.toNat) : x = y := by
  have hbits : x.toBits = y.toBits := UInt64.toNat_inj.mp h
  obtain ⟨x, hx⟩ := x
  obtain ⟨y, hy⟩ := y
  obtain rfl : x = y := hbits
  rfl

theorem signBit_iff (x : Float) : signBit x = true ↔ 2 ^ 63 ≤ x.toBits.toNat := by
  have hlt := toBits_lt x
  simp only [signBit, twoTo_eq, beq_iff_eq]
  norm_num at hlt ⊢
  omega

theorem toBits_eq (x : Float) :
    x.toBits.toNat = unsignedBits x + if signBit x then 2 ^ 63 else 0 := by
  have hlt := toBits_lt x
  by_cases h : signBit x = true
  · have hle := (signBit_iff x).mp h
    simp only [unsignedBits, h, if_true]
    norm_num at hlt hle ⊢
    omega
  · have hle := mt (signBit_iff x).mpr h
    simp only [unsignedBits, h]
    norm_num at hlt hle ⊢
    omega

/-- A double is determined by its sign and the other bits. -/
theorem eq_of_parts {x y : Float} (hsign : signBit x = signBit y)
    (hbits : unsignedBits x = unsignedBits y) : x = y := by
  apply eq_of_toBits
  rw [toBits_eq x, toBits_eq y, hsign, hbits]

/-! ## Packing and unpacking -/

theorem mantissa_toNat (b : BitVec 64) :
    (@unpackMantissa Format.binary64 b).toNat = b.toNat % 2 ^ 52 := by
  simp [unpackMantissa]

theorem exponent_toNat (b : BitVec 64) :
    (@unpackExponent Format.binary64 b).toNat = b.toNat / 2 ^ 52 % 2 ^ 11 := by
  simp [unpackExponent, Nat.shiftRight_eq_div_pow]

theorem sign_toNat (b : BitVec 64) :
    (@unpackSign Format.binary64 b).toNat = b.toNat / 2 ^ 63 := by
  have hb : b.toNat < 18446744073709551616 := b.isLt
  have hbit : (@unpackSign Format.binary64 b).toNat = (b.extractLsb 63 63).toNat := rfl
  rw [hbit, BitVec.extractLsb_toNat, Nat.shiftRight_eq_div_pow]
  omega

theorem packComponents_toNat (s : Sign) (e : BitVec 11) (m : BitVec 52) :
    (packComponents Format.binary64 s e m).toNat =
      s.toBitVec.toNat * 2 ^ 63 + e.toNat * 2 ^ 52 + m.toNat := by
  have he := e.isLt
  have hm := m.isLt
  simp only [packComponents, BitVec.toNat_append]
  rw [← Nat.shiftLeft_add_eq_or_of_lt he, ← Nat.shiftLeft_add_eq_or_of_lt hm, Nat.shiftLeft_eq,
    Nat.shiftLeft_eq]
  norm_num
  ring

/-- The sign of sixty-four bits. -/
def signPart (b : BitVec 64) : Sign :=
  Sign.ofBitVec (@unpackSign Format.binary64 b)

theorem toBitVec_ofBitVec (b : BitVec 1) : (Sign.ofBitVec b).toBitVec = b := by
  have hb : b.toNat < 2 := b.isLt
  by_cases h : b = 0#1
  · rw [h]
    rfl
  · have hone : b = 1#1 := by
      apply BitVec.eq_of_toNat_eq
      have hne : b.toNat ≠ 0 := fun hzero => h (BitVec.eq_of_toNat_eq hzero)
      rw [BitVec.toNat_ofNat]
      omega
    rw [hone]
    rfl

/-- The parts of sixty-four bits put together again. -/
theorem packComponents_unpack (b : BitVec 64) :
    packComponents Format.binary64 (signPart b) (@unpackExponent Format.binary64 b)
      (@unpackMantissa Format.binary64 b) = b := by
  apply BitVec.eq_of_toNat_eq
  have hb : b.toNat < 2 ^ 64 := b.isLt
  rw [packComponents_toNat, signPart, toBitVec_ofBitVec, sign_toNat, exponent_toNat, mantissa_toNat]
  norm_num at hb ⊢
  omega

/-- The field of the exponent in a number of sixty-four bits. -/
def exponentField (n : Nat) : Nat :=
  n / 2 ^ 52 % 2 ^ 11

/-- The field of the mantissa in a number of sixty-four bits. -/
def mantissaField (n : Nat) : Nat :=
  n % 2 ^ 52

section Unpacking

variable {b : BitVec 64}

theorem exponent_eq_iff (e : BitVec 11) :
    @unpackExponent Format.binary64 b = e ↔ exponentField b.toNat = e.toNat := by
  rw [exponentField, ← exponent_toNat]
  exact BitVec.toNat_inj.symm

theorem mantissa_eq_zero_iff :
    @unpackMantissa Format.binary64 b = 0#52 ↔ mantissaField b.toNat = 0 := by
  rw [mantissaField, ← mantissa_toNat]
  exact BitVec.toNat_inj.symm

theorem unpack_infinity (hexponent : exponentField b.toNat = 2047)
    (hmantissa : mantissaField b.toNat = 0) :
    UnpackedFloat.unpack Format.binary64 b = .infinity (signPart b) := by
  have hfull := (exponent_eq_iff (b := b) (-1#11)).mpr hexponent
  exact (if_pos hfull).trans (if_pos (mantissa_eq_zero_iff.mpr hmantissa))

theorem unpack_notANumber (hexponent : exponentField b.toNat = 2047)
    (hmantissa : mantissaField b.toNat ≠ 0) : UnpackedFloat.unpack Format.binary64 b = .notANumber := by
  have hfull := (exponent_eq_iff (b := b) (-1#11)).mpr hexponent
  exact (if_pos hfull).trans (if_neg (mt mantissa_eq_zero_iff.mp hmantissa))

theorem finite_congr {s : Sign} {m n : Nat} {e f : Int} {hm : 0 < m} {hn : 0 < n} (h : m = n)
    (hef : e = f) : UnpackedFloat.finite s m e hm = .finite s n f hn := by
  subst h hef
  rfl

theorem not_full (hexponent : exponentField b.toNat ≠ 2047) :
    ¬@unpackExponent Format.binary64 b = -1#11 :=
  mt (exponent_eq_iff (-1#11)).mp hexponent

theorem unpack_zero (hexponent : exponentField b.toNat = 0)
    (hmantissa : mantissaField b.toNat = 0) :
    UnpackedFloat.unpack Format.binary64 b = .zero (signPart b) := by
  have hempty := (exponent_eq_iff (b := b) 0#11).mpr hexponent
  have hfull := not_full (b := b) (by omega)
  exact (if_neg hfull).trans ((if_pos hempty).trans (dif_pos (mantissa_eq_zero_iff.mpr hmantissa)))

theorem unpack_subnormal (hexponent : exponentField b.toNat = 0)
    (hmantissa : 0 < mantissaField b.toNat) :
    UnpackedFloat.unpack Format.binary64 b =
      .finite (signPart b) (mantissaField b.toNat) (-1074) hmantissa := by
  have hempty := (exponent_eq_iff (b := b) 0#11).mpr hexponent
  have hzero := mt mantissa_eq_zero_iff.mp (Nat.pos_iff_ne_zero.mp hmantissa)
  have hfull := not_full (b := b) (by omega)
  have hexponent' : ((@unpackExponent Format.binary64 b).toNat : Int) - 1075 + 1 = -1074 := by
    rw [hempty]
    rfl
  exact ((if_neg hfull).trans ((if_pos hempty).trans (dif_neg hzero))).trans
    (finite_congr (mantissa_toNat b) hexponent')

theorem unpack_normal (hempty : exponentField b.toNat ≠ 0) (hfull : exponentField b.toNat ≠ 2047) :
    UnpackedFloat.unpack Format.binary64 b =
      .finite (signPart b) (2 ^ 52 + mantissaField b.toNat)
        ((exponentField b.toNat : Int) - 1075) (Nat.add_pos_left (Nat.two_pow_pos 52) _) := by
  have hempty' := mt (exponent_eq_iff (b := b) 0#11).mp hempty
  have hbits : (1#1 ++ @unpackMantissa Format.binary64 b).toNat =
      2 ^ 52 + mantissaField b.toNat := by
    rw [BitVec.toNat_append, ← Nat.shiftLeft_add_eq_or_of_lt (BitVec.isLt _), mantissaField,
      ← mantissa_toNat]
    rfl
  exact ((if_neg (not_full hfull)).trans (if_neg hempty')).trans
    (finite_congr hbits (congrArg (fun n : Nat => (n : Int) - 1075) (exponent_toNat b)))

theorem pack_finite (s : Sign) {m : Nat} (e : Int) (hm : 0 < m) :
    UnpackedFloat.pack Format.binary64 (.finite s m e hm) =
      if 2 ^ 11 ≤ (e + 1023 + 52).toNat + 1 then packedInfinity Format.binary64 s
      else if m.log2 + 1 = 53 then
        packComponents Format.binary64 s (BitVec.ofNat 11 (e + 1023 + 52).toNat) (BitVec.ofNat 52 m)
      else packComponents Format.binary64 s 0#11 (BitVec.ofNat 52 m) :=
  rfl

/-- Bits that are no payload of a NaN are packed again as they were. -/
theorem pack_unpack (h : exponentField b.toNat ≠ 2047 ∨ mantissaField b.toNat = 0) :
    UnpackedFloat.pack Format.binary64 (UnpackedFloat.unpack Format.binary64 b) = b := by
  have hall {e : BitVec 11} {m : BitVec 52} (he : exponentField b.toNat = e.toNat)
      (hm : mantissaField b.toNat = m.toNat) :
      packComponents Format.binary64 (signPart b) e m = b := by
    have hm' : @unpackMantissa Format.binary64 b = m :=
      BitVec.eq_of_toNat_eq ((mantissa_toNat b).trans hm)
    rw [← (exponent_eq_iff e).mpr he, ← hm']
    exact packComponents_unpack b
  have hlow : mantissaField b.toNat < 2 ^ 52 := Nat.mod_lt _ (by norm_num)
  by_cases hempty : exponentField b.toNat = 0
  · by_cases hzero : mantissaField b.toNat = 0
    · rw [unpack_zero hempty hzero]
      exact hall hempty hzero
    · have hpos := Nat.pos_of_ne_zero hzero
      have hlog : (mantissaField b.toNat).log2 < 52 := (Nat.log2_lt hzero).mpr hlow
      rw [unpack_subnormal hempty hpos]
      have hbits : (BitVec.ofNat 52 (mantissaField b.toNat)).toNat = mantissaField b.toNat := by
        rw [BitVec.toNat_ofNat, Nat.mod_eq_of_lt hlow]
      rw [pack_finite, if_neg (by decide), if_neg (by omega)]
      exact hall hempty hbits.symm
  · by_cases hfull : exponentField b.toNat = 2047
    · have hzero := h.resolve_left (fun hne => hne hfull)
      rw [unpack_infinity hfull hzero]
      exact hall hfull hzero
    · have hfield : exponentField b.toNat < 2 ^ 11 := Nat.mod_lt _ (by norm_num)
      have hlog : (2 ^ 52 + mantissaField b.toNat).log2 = 52 := by
        rw [Nat.log2_eq_iff (by omega)]
        constructor
        · exact Nat.le_add_right _ _
        · omega
      have hbiased : ((exponentField b.toNat : Int) - 1075 + 1023 + 52).toNat =
          exponentField b.toNat := by
        omega
      rw [unpack_normal hempty hfull, pack_finite, hbiased, if_neg (by omega), if_pos (by omega)]
      apply hall
      · rw [BitVec.toNat_ofNat, Nat.mod_eq_of_lt hfield]
      · rw [BitVec.toNat_ofNat, Nat.add_mod_left, Nat.mod_eq_of_lt hlow]

end Unpacking

/-! ## Doubles and their bits -/

theorem isFinite_eq (x : Float) :
    x.isFinite = (UnpackedFloat.unpack Format.binary64 x.toBits.toBitVec).isFinite :=
  rfl

theorem fields_lt (n : Nat) : exponentField n < 2 ^ 11 ∧ mantissaField n < 2 ^ 52 :=
  ⟨Nat.mod_lt _ (by norm_num), Nat.mod_lt _ (by norm_num)⟩

theorem isFinite_iff_field (x : Float) :
    x.isFinite = true ↔ exponentField x.toBits.toNat ≠ 2047 := by
  rw [isFinite_eq]
  by_cases hfull : exponentField x.toBits.toNat = 2047
  · by_cases hzero : mantissaField x.toBits.toNat = 0
    · rw [unpack_infinity hfull hzero]
      exact iff_of_false Bool.false_ne_true (not_not_intro hfull)
    · rw [unpack_notANumber hfull hzero]
      exact iff_of_false Bool.false_ne_true (not_not_intro hfull)
  · by_cases hempty : exponentField x.toBits.toNat = 0
    · by_cases hzero : mantissaField x.toBits.toNat = 0
      · rw [unpack_zero hempty hzero]
        exact iff_of_true rfl hfull
      · rw [unpack_subnormal hempty (Nat.pos_of_ne_zero hzero)]
        exact iff_of_true rfl hfull
    · rw [unpack_normal hempty hfull]
      exact iff_of_true rfl hfull

/-- A double is finite if its bits lie below those of infinity. -/
theorem isFinite_iff (x : Float) : x.isFinite = true ↔ unsignedBits x < infinityBits := by
  rw [isFinite_iff_field, unsignedBits, infinityBits_eq, exponentField]
  norm_num
  omega

/-- Bits that are no payload of a NaN are the bits of their double. -/
theorem toBits_ofBits {n : Nat} (hn : n < 2 ^ 64) (hnan : n % 2 ^ 63 ≤ infinityBits) :
    (Float.ofBits (UInt64.ofNat n)).toBits.toNat = n := by
  have htoNat : (UInt64.ofNat n).toBitVec.toNat = n := by
    rw [← UInt64.toNat, UInt64.toNat_ofNat_of_lt' hn]
  have hfields : exponentField (UInt64.ofNat n).toBitVec.toNat ≠ 2047 ∨
      mantissaField (UInt64.ofNat n).toBitVec.toNat = 0 := by
    rw [htoNat, exponentField, mantissaField]
    rw [infinityBits_eq] at hnan
    norm_num at hn hnan ⊢
    omega
  have hpack := pack_unpack hfields
  have hbits : (Float.ofBits (UInt64.ofNat n)).toBits.toBitVec =
      UnpackedFloat.pack Format.binary64
        (UnpackedFloat.unpack Format.binary64 (UInt64.ofNat n).toBitVec) := rfl
  rw [UInt64.toNat, hbits, hpack, htoNat]

theorem signBit_ofBits {n : Nat} {negative : Bool} (hn : n ≤ infinityBits) :
    signBit (Float.ofBits (UInt64.ofNat (n + if negative then twoTo 63 else 0))) = negative ∧
      unsignedBits (Float.ofBits (UInt64.ofNat (n + if negative then twoTo 63 else 0))) = n := by
  rw [infinityBits_eq] at hn
  have hbits : (Float.ofBits (UInt64.ofNat (n + if negative then twoTo 63 else 0))).toBits.toNat =
      n + if negative then twoTo 63 else 0 := by
    apply toBits_ofBits
    · cases negative
      · norm_num at hn ⊢
        omega
      · norm_num [twoTo_eq]
        omega
    · rw [infinityBits_eq]
      cases negative
      · norm_num at hn ⊢
        omega
      · norm_num [twoTo_eq] at hn ⊢
        omega
  constructor
  · rw [Bool.eq_iff_iff, signBit_iff, hbits]
    cases negative
    · norm_num at hn ⊢
      omega
    · norm_num [twoTo_eq]
  · rw [unsignedBits, hbits]
    cases negative <;> norm_num [twoTo_eq] at hn ⊢ <;> omega

/-- The sign that a sign bit stands for. -/
def signOf (negative : Bool) : Sign :=
  if negative then .negative else .positive

theorem signPart_eq (x : Float) : signPart x.toBits.toBitVec = signOf (signBit x) := by
  have hlt := toBits_lt x
  have hsign := sign_toNat x.toBits.toBitVec
  have hnat : x.toBits.toBitVec.toNat = x.toBits.toNat := rfl
  rw [hnat] at hsign
  rw [signPart, Sign.ofBitVec, signOf]
  by_cases h : signBit x = true
  · have hle := (signBit_iff x).mp h
    have hone : x.toBits.toNat / 2 ^ 63 = 1 := by omega
    have hne : @unpackSign Format.binary64 x.toBits.toBitVec ≠ 0#1 := by
      intro hzero
      rw [hzero, hone] at hsign
      cases hsign
    rw [if_neg hne, h, if_pos rfl]
  · have hle := mt (signBit_iff x).mpr h
    have hzero : x.toBits.toNat / 2 ^ 63 = 0 := by omega
    have heq : @unpackSign Format.binary64 x.toBits.toBitVec = 0#1 :=
      BitVec.eq_of_toNat_eq (hsign.trans hzero)
    rw [if_pos heq, if_neg h]

theorem fields_eq_zero {x : Float} :
    unsignedBits x = 0 ↔ exponentField x.toBits.toNat = 0 ∧ mantissaField x.toBits.toNat = 0 := by
  rw [unsignedBits, exponentField, mantissaField]
  norm_num
  omega

theorem unsignedBits_eq (x : Float) :
    unsignedBits x = exponentField x.toBits.toNat * 2 ^ 52 + mantissaField x.toBits.toNat := by
  rw [unsignedBits, exponentField, mantissaField]
  norm_num
  omega

theorem magnitude_eq (x : Float) :
    magnitude x = if exponentField x.toBits.toNat = 0 then ⟨mantissaField x.toBits.toNat, -1074⟩
      else ⟨2 ^ 52 + mantissaField x.toBits.toNat, (exponentField x.toBits.toNat : Int) - 1075⟩ :=
  rfl

/-- A finite double is unpacked to zero or to its magnitude. -/
theorem unpack_of_isFinite {x : Float} (hx : x.isFinite = true) :
    (unsignedBits x = 0 ∧ x.toModel.unpack = .zero (signOf (signBit x))) ∨
    ∃ hpos, unsignedBits x ≠ 0 ∧ x.toModel.unpack =
      .finite (signOf (signBit x)) (magnitude x).mantissa (magnitude x).exponent hpos := by
  have hfull := (isFinite_iff_field x).mp hx
  rw [← signPart_eq]
  by_cases hempty : exponentField x.toBits.toNat = 0
  · by_cases hzero : mantissaField x.toBits.toNat = 0
    · exact .inl ⟨fields_eq_zero.mpr ⟨hempty, hzero⟩, unpack_zero hempty hzero⟩
    · have hne : unsignedBits x ≠ 0 := fun h => hzero (fields_eq_zero.mp h).2
      have hpos := Nat.pos_of_ne_zero hzero
      rw [magnitude_eq, if_pos hempty]
      exact .inr ⟨hpos, hne, unpack_subnormal hempty hpos⟩
  · have hne : unsignedBits x ≠ 0 := fun h => hempty (fields_eq_zero.mp h).1
    rw [magnitude_eq, if_neg hempty]
    exact .inr ⟨by positivity, hne, unpack_normal hempty hfull⟩

theorem isNaN_of_isFinite {x : Float} (hx : x.isFinite = true) : x.isNaN = false := by
  have hunpack : x.isNaN = x.toModel.unpack.isNaN := rfl
  rw [hunpack]
  obtain ⟨-, h⟩ | ⟨_, -, h⟩ := unpack_of_isFinite hx
  · rw [h]
    rfl
  · rw [h]
    rfl

theorem isInf_of_isFinite {x : Float} (hx : x.isFinite = true) : x.isInf = false := by
  have hunpack : x.isInf = x.toModel.unpack.isInf := rfl
  rw [hunpack]
  obtain ⟨-, h⟩ | ⟨_, -, h⟩ := unpack_of_isFinite hx
  · rw [h]
    rfl
  · rw [h]
    rfl

theorem unpack_literal_zero : (0 : Float).toModel.unpack = .zero .positive := by
  rfl

/-- Either zero equals the literal. -/
theorem beq_zero_iff {x : Float} (hx : x.isFinite = true) :
    (x == 0) = true ↔ unsignedBits x = 0 := by
  have hunpack : (x == 0) = x.toModel.unpack.beq (0 : Float).toModel.unpack := rfl
  rw [hunpack, unpack_literal_zero]
  obtain ⟨hzero, h⟩ | ⟨_, hne, h⟩ := unpack_of_isFinite hx
  · rw [h]
    exact iff_of_true rfl hzero
  · rw [h]
    refine iff_of_false ?_ hne
    cases signBit x
    · exact Bool.false_ne_true
    · exact Bool.false_ne_true

theorem lt_zero_iff {x : Float} (hx : x.isFinite = true) :
    x < 0 ↔ signBit x = true ∧ unsignedBits x ≠ 0 := by
  have hunpack : x < 0 ↔ x.toModel.unpack.lt (0 : Float).toModel.unpack = true :=
    decide_eq_true_iff
  rw [hunpack, unpack_literal_zero]
  obtain ⟨hzero, h⟩ | ⟨_, hne, h⟩ := unpack_of_isFinite hx
  · rw [h]
    exact iff_of_false Bool.false_ne_true fun hboth => hboth.2 hzero
  · rw [h]
    cases signBit x with
    | false => exact iff_of_false Bool.false_ne_true fun hboth => Bool.false_ne_true hboth.1
    | true => exact iff_of_true rfl ⟨rfl, hne⟩

/-- Finite numbers that are not zero are equal if all their parts are. -/
theorem finite_beq_iff {s t : Sign} {m n : Nat} {e f : Int} {hm : 0 < m} {hn : 0 < n} :
    (UnpackedFloat.finite s m e hm).beq (.finite t n f hn) = true ↔ s = t ∧ m = n ∧ e = f := by
  have hthen : (compare e f).then (compare m n) = .eq ↔ m = n ∧ e = f := by
    rw [Ordering.then_eq_eq, compare_eq_iff_eq, compare_eq_iff_eq, and_comm]
  cases s with
  | positive =>
    cases t with
    | positive =>
      have hdef : (UnpackedFloat.finite .positive m e hm).beq (.finite .positive n f hn) =
          (some ((compare e f).then (compare m n)) == some .eq) := rfl
      rw [hdef, beq_iff_eq, Option.some_inj, hthen]
      exact (and_iff_right rfl).symm
    | negative => exact iff_of_false Bool.false_ne_true nofun
  | negative =>
    cases t with
    | positive => exact iff_of_false Bool.false_ne_true nofun
    | negative =>
      have hdef : (UnpackedFloat.finite .negative m e hm).beq (.finite .negative n f hn) =
          (some ((compare e f).then (compare m n)).swap == some .eq) := rfl
      rw [hdef, beq_iff_eq, Option.some_inj, Ordering.swap_eq_eq, hthen]
      exact (and_iff_right rfl).symm

theorem beq_self {x : Float} (hx : x.isFinite = true) : (x == x) = true := by
  have hunpack : (x == x) = x.toModel.unpack.beq x.toModel.unpack := rfl
  rw [hunpack]
  obtain ⟨-, h⟩ | ⟨_, -, h⟩ := unpack_of_isFinite hx
  · rw [h]
    rfl
  · rw [h]
    exact finite_beq_iff.mpr ⟨rfl, rfl, rfl⟩

theorem fields_of_unsignedBits (x : Float) :
    exponentField x.toBits.toNat = unsignedBits x / 2 ^ 52 ∧
      mantissaField x.toBits.toNat = unsignedBits x % 2 ^ 52 := by
  rw [unsignedBits, exponentField, mantissaField]
  norm_num
  omega

theorem magnitude_congr {x y : Float} (h : unsignedBits x = unsignedBits y) :
    magnitude x = magnitude y := by
  rw [magnitude_eq, magnitude_eq, (fields_of_unsignedBits x).1, (fields_of_unsignedBits x).2,
    (fields_of_unsignedBits y).1, (fields_of_unsignedBits y).2, h]

theorem ofModel_pack {x : Float} (hx : x.isFinite = true) :
    Float.ofModel (Float.Model.pack x.toModel.unpack) = x := by
  have hfields : exponentField x.toBits.toBitVec.toNat ≠ 2047 ∨
      mantissaField x.toBits.toBitVec.toNat = 0 := .inl ((isFinite_iff_field x).mp hx)
  apply eq_of_toBits
  exact congrArg BitVec.toNat (pack_unpack hfields)

/-- Finite doubles that are equal differ at most in the sign of zero. -/
theorem eq_or_zero_of_beq {x y : Float} (hx : x.isFinite = true) (hy : y.isFinite = true)
    (h : (x == y) = true) : x = y ∨ (x == 0) = true ∧ (y == 0) = true := by
  have hunpack : (x == y) = x.toModel.unpack.beq y.toModel.unpack := rfl
  rw [hunpack] at h
  obtain ⟨hzero, hux⟩ | ⟨_, -, hux⟩ := unpack_of_isFinite hx
  · obtain ⟨hzeroy, -⟩ | ⟨_, -, huy⟩ := unpack_of_isFinite hy
    · exact .inr ⟨(beq_zero_iff hx).mpr hzero, (beq_zero_iff hy).mpr hzeroy⟩
    · rw [hux, huy] at h
      exact absurd h (by cases signBit y <;> exact Bool.false_ne_true)
  · obtain ⟨-, huy⟩ | ⟨_, -, huy⟩ := unpack_of_isFinite hy
    · rw [hux, huy] at h
      exact absurd h (by cases signBit x <;> exact Bool.false_ne_true)
    · left
      have hsame : x.toModel.unpack = y.toModel.unpack := by
        rw [hux, huy] at h ⊢
        obtain ⟨hsign, hmantissa, hexponent⟩ := finite_beq_iff.mp h
        rw [hsign]
        exact finite_congr hmantissa hexponent
      rw [← ofModel_pack hx, hsame, ofModel_pack hy]

/-- The mantissa has fifty-three bits, or fewer at the least exponent. -/
structure Binary.Canonical (b : Binary) : Prop where
  small : b.mantissa < 2 ^ 53
  least : -1074 ≤ b.exponent
  large : b.exponent = -1074 ∨ 2 ^ 52 ≤ b.mantissa

theorem canonical_magnitude (x : Float) : (magnitude x).Canonical := by
  obtain ⟨-, hlow⟩ := fields_lt x.toBits.toNat
  rw [magnitude_eq]
  split
  · exact ⟨by simp only; omega, le_rfl, .inl rfl⟩
  · exact ⟨by simp only; omega, by simp only; omega, .inr (Nat.le_add_right _ _)⟩

/-- The exponent and the mantissa side by side are the bits without the sign. -/
theorem bits_magnitude (x : Float) :
    ((magnitude x).exponent + 1074).toNat * 2 ^ 52 + (magnitude x).mantissa = unsignedBits x := by
  rw [unsignedBits_eq, magnitude_eq]
  split <;> simp only <;> omega

/-- Different magnitudes have different bits. -/
theorem Binary.Canonical.magnitude_eq {b : Binary} (hb : b.Canonical) {x : Float}
    (h : (b.exponent + 1074).toNat * 2 ^ 52 + b.mantissa = unsignedBits x) : magnitude x = b := by
  have hx := canonical_magnitude x
  rw [← bits_magnitude] at h
  obtain ⟨hsmall, hleast, hlarge⟩ := hb
  obtain ⟨hsmall', hleast', hlarge'⟩ := hx
  generalize magnitude x = m at *
  obtain ⟨n, e⟩ := m
  obtain ⟨n', e'⟩ := b
  simp only at *
  obtain rfl : e = e' := by omega
  obtain rfl : n = n' := by omega
  rfl

theorem magnitude_lt {x : Float} (hx : x.isFinite = true) :
    (magnitude x).mantissa < 2 ^ 53 ∧ -1074 ≤ (magnitude x).exponent ∧
      (magnitude x).exponent ≤ 971 := by
  have hlt := (isFinite_iff x).mp hx
  have hbits := bits_magnitude x
  obtain ⟨hsmall, hleast, hlarge⟩ := canonical_magnitude x
  rw [infinityBits_eq] at hlt
  omega

/-! ## Packing -/

/-- The double that an unpacked one is packed to. -/
def packed (u : UnpackedFloat) : Float :=
  Float.ofModel (Float.Model.pack u)

section Packing

variable {negative : Bool}

theorem parts_of_pack {u : UnpackedFloat} {e : BitVec 11} {m : BitVec 52}
    (h : UnpackedFloat.pack Format.binary64 u =
      packComponents Format.binary64 (signOf negative) e m) :
    signBit (packed u) = negative ∧ unsignedBits (packed u) = e.toNat * 2 ^ 52 + m.toNat := by
  have hbits : (packed u).toBits.toNat =
      (signOf negative).toBitVec.toNat * 2 ^ 63 + e.toNat * 2 ^ 52 + m.toNat := by
    rw [← packComponents_toNat, ← h]
    rfl
  have he : e.toNat < 2 ^ 11 := e.isLt
  have hm : m.toNat < 2 ^ 52 := m.isLt
  constructor
  · rw [Bool.eq_iff_iff, signBit_iff, hbits]
    cases negative with
    | false => simp [signOf, Sign.toBitVec]; omega
    | true => simp [signOf, Sign.toBitVec]; omega
  · rw [unsignedBits, hbits]
    cases negative with
    | false => simp [signOf, Sign.toBitVec]; omega
    | true => simp [signOf, Sign.toBitVec]; omega

theorem parts_packed_zero : signBit (packed (.zero (signOf negative))) = negative ∧
    unsignedBits (packed (.zero (signOf negative))) = 0 := by
  have hpack : UnpackedFloat.pack Format.binary64 (.zero (signOf negative)) =
      packComponents Format.binary64 (signOf negative) 0#11 0#52 := rfl
  exact parts_of_pack hpack

/-- A canonical magnitude is packed to its bits, or to infinity where they would lie beyond. -/
theorem parts_packed_finite {b : Binary} (h : b.Canonical) (hm : 0 < b.mantissa) :
    signBit (packed (.finite (signOf negative) b.mantissa b.exponent hm)) = negative ∧
      unsignedBits (packed (.finite (signOf negative) b.mantissa b.exponent hm)) =
        min ((b.exponent + 1074).toNat * 2 ^ 52 + b.mantissa) infinityBits := by
  obtain ⟨m, e⟩ := b
  obtain ⟨hsmall, hleast, hlarge⟩ := h
  simp only at hm hsmall hleast hlarge
  show signBit (packed (.finite (signOf negative) m e hm)) = negative ∧
    unsignedBits (packed (.finite (signOf negative) m e hm)) =
      min ((e + 1074).toNat * 2 ^ 52 + m) infinityBits
  have hpack := pack_finite (signOf negative) e hm
  rw [infinityBits_eq]
  by_cases hbeyond : 2 ^ 11 ≤ (e + 1023 + 52).toNat + 1
  · rw [if_pos hbeyond] at hpack
    obtain ⟨hsign, hbits⟩ := parts_of_pack hpack
    refine ⟨hsign, hbits.trans ?_⟩
    rw [min_eq_right (by omega)]
    rfl
  · rw [if_neg hbeyond] at hpack
    by_cases hlong : m.log2 + 1 = 53
    · rw [if_pos hlong] at hpack
      obtain ⟨hsign, hbits⟩ := parts_of_pack hpack
      have hlow : 2 ^ 52 ≤ m := (Nat.le_log2 hm.ne').mp (by omega)
      refine ⟨hsign, hbits.trans ?_⟩
      rw [BitVec.toNat_ofNat, BitVec.toNat_ofNat, min_eq_left (by omega)]
      omega
    · rw [if_neg hlong] at hpack
      obtain ⟨hsign, hbits⟩ := parts_of_pack hpack
      have hlow : m < 2 ^ 52 := by
        have hlog := (Nat.log2_lt hm.ne').mpr hsmall
        exact (Nat.log2_lt hm.ne').mp (by omega)
      refine ⟨hsign, hbits.trans ?_⟩
      rw [BitVec.toNat_ofNat, BitVec.toNat_ofNat, min_eq_left (by omega)]
      omega

end Packing

/-! ## Signs -/

section Signs

variable {x : Float}

theorem neg_signOf (negative : Bool) : -signOf negative = signOf (!negative) := by
  cases negative <;> rfl

/-- The magnitude of a finite double is packed to its bits under either sign. -/
theorem parts_packed_magnitude (hx : x.isFinite = true) (negative : Bool)
    (hpos : 0 < (magnitude x).mantissa) :
    signBit (packed (.finite (signOf negative) _ (magnitude x).exponent hpos)) = negative ∧
      unsignedBits (packed (.finite (signOf negative) _ (magnitude x).exponent hpos)) =
        unsignedBits x := by
  obtain ⟨hsign, hbits⟩ := @parts_packed_finite negative _ (canonical_magnitude x) hpos
  rw [bits_magnitude, min_eq_left ((isFinite_iff x).mp hx).le] at hbits
  exact ⟨hsign, hbits⟩

/-- The negative of a finite double differs from it in the sign only. -/
theorem neg_parts (hx : x.isFinite = true) :
    signBit (-x) = !signBit x ∧ unsignedBits (-x) = unsignedBits x := by
  have hneg : -x = packed x.toModel.unpack.neg := rfl
  rw [hneg]
  obtain ⟨hzero, hunpack⟩ | ⟨hpos, -, hunpack⟩ := unpack_of_isFinite hx
  · have hflip : x.toModel.unpack.neg = .zero (signOf !signBit x) := by
      rw [hunpack]
      exact congrArg UnpackedFloat.zero (neg_signOf _)
    rw [hflip, hzero]
    exact parts_packed_zero
  · have hflip : x.toModel.unpack.neg =
        .finite (signOf !signBit x) _ (magnitude x).exponent hpos := by
      rw [hunpack]
      exact congrArg (UnpackedFloat.finite · _ _ hpos) (neg_signOf _)
    rw [hflip]
    exact parts_packed_magnitude hx _ hpos

/-- The absolute value of a finite double has no sign. -/
theorem abs_parts (hx : x.isFinite = true) :
    signBit x.abs = false ∧ unsignedBits x.abs = unsignedBits x := by
  have habs : x.abs = packed x.toModel.unpack.abs := rfl
  rw [habs]
  obtain ⟨hzero, hunpack⟩ | ⟨hpos, -, hunpack⟩ := unpack_of_isFinite hx
  · rw [hunpack, hzero]
    exact @parts_packed_zero false
  · rw [hunpack]
    exact parts_packed_magnitude hx false hpos

end Signs

theorem parts_infinity : signBit infinity = false ∧ unsignedBits infinity = infinityBits := by
  decide

theorem parts_neg_infinity :
    signBit (-infinity) = true ∧ unsignedBits (-infinity) = infinityBits := by
  decide

/-- A double that is a number is finite or infinite. -/
theorem finite_or_infinite {x : Float} (hx : x.isNaN = false) :
    x.isFinite = true ∨ x = infinity ∨ x = -infinity := by
  by_cases hfinite : x.isFinite = true
  · exact .inl hfinite
  · have hfull : exponentField x.toBits.toNat = 2047 := by
      rw [isFinite_iff_field] at hfinite
      exact not_not.mp hfinite
    have hempty : mantissaField x.toBits.toNat = 0 := by
      by_contra hne
      have hunpack : x.isNaN = (UnpackedFloat.unpack Format.binary64 x.toBits.toBitVec).isNaN := rfl
      rw [hunpack, unpack_notANumber hfull hne] at hx
      cases hx
    have hbits : unsignedBits x = infinityBits := by
      rw [unsignedBits_eq, hfull, hempty, infinityBits_eq, Nat.add_zero]
    cases hsign : signBit x with
    | false => exact .inr (.inl (eq_of_parts (hsign.trans parts_infinity.1.symm)
        (hbits.trans parts_infinity.2.symm)))
    | true => exact .inr (.inr (eq_of_parts (hsign.trans parts_neg_infinity.1.symm)
        (hbits.trans parts_neg_infinity.2.symm)))

theorem isFinite_zero : (0 : Float).isFinite = true := by
  rfl

end DeskCalc.Number

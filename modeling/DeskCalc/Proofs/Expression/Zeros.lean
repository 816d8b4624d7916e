import DeskCalc.Number.Radix
import DeskCalc.Proofs.Expression.Readback
import DeskCalc.Proofs.Number.Fractions
import DeskCalc.Proofs.Number.Sums

/-!
# Values up to the sign of zero

A number that is read back from its text is the same up to the sign of zero.  What is added to it,
what it is multiplied by and how it is written in a base does not depend on that sign either.
-/

namespace DeskCalc.Expression

open Float.Model
open Number (applySign exactValue leadingNumber? numberText packed)

variable {x : Float}

theorem plainZero_eq_nearestTo (hx : x.isFinite = true) :
    plainZero x = Number.nearestTo (exactValue x) := by
  rw [plainZero]
  split
  next h => rw [(Number.beq_zero_iff_exactValue hx).mp h, Number.nearestTo_zero]
  next h => rw [Number.nearestTo_exactValue hx (mt (Number.beq_zero_iff_exactValue hx).mpr h)]

theorem isFinite_plainZero (hx : x.isFinite = true) : (plainZero x).isFinite = true := by
  rw [plainZero]
  split
  · exact Number.isFinite_zero
  · exact hx

theorem leadingNumber?_numberText (hx : x.isFinite = true) :
    leadingNumber? (numberText x) = some (plainZero x) := by
  obtain ⟨n, htext, hvalue⟩ := exists_spelling hx
  have hread := @leadingNumber?_spelling (decide (x < 0)) n [] nofun
  rwa [List.append_nil, ← htext, hvalue] at hread

theorem exists_unpack_of_beq_zero (h : (x == 0) = true) :
    ∃ s, x.toModel.unpack = .zero s := by
  have hunpack : (x == 0) = x.toModel.unpack.beq (0 : Float).toModel.unpack := rfl
  rw [hunpack, Number.unpack_literal_zero] at h
  cases hx : x.toModel.unpack with
  | zero s => exact ⟨s, rfl⟩
  | notANumber =>
    rw [hx] at h
    cases h
  | infinity s =>
    rw [hx] at h
    cases s <;> cases h
  | finite s m e hm =>
    rw [hx] at h
    cases s <;> cases h

theorem plainZero_cases (x : Float) :
    plainZero x = x ∨ plainZero x = 0 ∧ ∃ s, x.toModel.unpack = .zero s := by
  by_cases h : (x == 0) = true
  · exact .inr ⟨if_pos h, exists_unpack_of_beq_zero h⟩
  · exact .inl (if_neg h)

theorem isFinite_of_plainZero (h : (plainZero x).isFinite = true) : x.isFinite = true := by
  rcases plainZero_cases x with hplain | ⟨-, s, hs⟩
  · rwa [hplain] at h
  · have hfinite : x.isFinite = x.toModel.unpack.isFinite := rfl
    rw [hfinite, hs]
    rfl

theorem isNaN_neg (h : x.isNaN = false) : (-x).isNaN = false := by
  rcases Number.finite_or_infinite h with hfinite | rfl | rfl
  · exact Number.isNaN_of_isFinite (Number.isFinite_neg hfinite)
  · rfl
  · rfl

/-! ## Signs -/

theorem negate_twice (hx : x.isNaN = false) : - -x = x := by
  rcases Number.finite_or_infinite hx with hfinite | rfl | rfl
  · obtain ⟨hsign, hbits⟩ := Number.neg_parts hfinite
    obtain ⟨hsign', hbits'⟩ := Number.neg_parts (Number.isFinite_neg hfinite)
    exact Number.eq_of_parts (by rw [hsign', hsign, Bool.not_not]) (hbits'.trans hbits)
  · rfl
  · rfl

theorem isNaN_applySign (negative : Bool) (hx : x.isNaN = false) :
    (applySign negative x).isNaN = false := by
  cases negative with
  | true => exact isNaN_neg hx
  | false => exact hx

/-- Of two signs, what counts is whether exactly one is a minus. -/
theorem applySign_applySign (negative negative' : Bool) (hx : x.isNaN = false) :
    applySign negative (applySign negative' x) = applySign (negative ^^ negative') x := by
  cases negative <;> cases negative' <;> first | rfl | exact negate_twice hx

/-- To subtract is to add with a minus. -/
theorem add_applySign (x : Float) {y : Float} (negative : Bool) (hy : y.isNaN = false) :
    (if negative then x - y else x + y) = x + applySign negative y := by
  cases negative with
  | true => exact Number.sub_eq_add hy
  | false => rfl

/-! ## Sums and products -/

/-- The sign of a zero does not matter in a sum, up to the sign of a zero. -/
theorem plainZero_add (x y : Float) : plainZero (plainZero x + y) = plainZero (x + y) := by
  have hadd (z : Float) : z + y = packed (UnpackedFloat.add Format.binary64 z.toModel.unpack
      y.toModel.unpack) := rfl
  rcases plainZero_cases x with hplain | ⟨hplain, s, hs⟩
  · rw [hplain]
  · rw [hplain, hadd, hadd, hs, Number.unpack_literal_zero]
    cases y.toModel.unpack with
    | zero t => cases s <;> cases t <;> rfl
    | _ => rfl

theorem plainZero_zero_add {y : Float} (hy : y.isNaN = false) :
    plainZero (0 + y) = plainZero y := by
  have hadd : 0 + y = packed (UnpackedFloat.add Format.binary64 (.zero .positive)
      y.toModel.unpack) := rfl
  rcases Number.finite_or_infinite hy with hfinite | rfl | rfl
  · by_cases hzero : exactValue y = 0
    · have hplain : plainZero y = 0 := if_pos ((Number.beq_zero_iff_exactValue hfinite).mpr hzero)
      rw [hadd, Number.unpack_of_eq_zero hfinite hzero, hplain]
      cases Number.signBit y <;> rfl
    · have hvalue : exactValue 0 = 0 := Number.exactValue_nearestTo_zero
      rw [Number.add_eq Number.isFinite_zero hfinite hzero, hvalue, zero_add,
        Number.nearestTo_exactValue hfinite hzero]
  · rfl
  · rfl

/-- The sign of a zero does not matter in a product, up to the sign of a zero. -/
theorem plainZero_mul (x y : Float) : plainZero (plainZero x * y) = plainZero (x * y) := by
  have hmul (z : Float) : z * y = packed (UnpackedFloat.mul Format.binary64 z.toModel.unpack
      y.toModel.unpack) := rfl
  have hzero (s : UnpackedFloat.Sign) : plainZero (packed (.zero s)) = 0 := by cases s <;> rfl
  rcases plainZero_cases x with hplain | ⟨hplain, s, hs⟩
  · rw [hplain]
  · rw [hplain, hmul, hmul, hs, Number.unpack_literal_zero]
    cases y.toModel.unpack with
    | notANumber => rfl
    | infinity t => rfl
    | zero t => exact (hzero _).trans (hzero _).symm
    | finite t m e hm => exact (hzero _).trans (hzero _).symm

/-- If a product is finite, its first factor is. -/
theorem isFinite_of_mul {y : Float} (h : (x * y).isFinite = true) : x.isFinite = true := by
  have hmul : x * y = packed (UnpackedFloat.mul Format.binary64 x.toModel.unpack
      y.toModel.unpack) := rfl
  have hfinite : x.isFinite = x.toModel.unpack.isFinite := rfl
  have hnumber : (packed .notANumber).isFinite = false := rfl
  have hinfinite (s : UnpackedFloat.Sign) : (packed (.infinity s)).isFinite = false := by
    cases s <;> rfl
  rw [hmul] at h
  rw [hfinite]
  cases hx : x.toModel.unpack with
  | zero s => rfl
  | finite s m e hm => rfl
  | notANumber =>
    have hproduct : UnpackedFloat.mul Format.binary64 .notANumber y.toModel.unpack =
        .notANumber := rfl
    rw [hx, hproduct, hnumber] at h
    cases h
  | infinity s =>
    -- Times a zero, infinity is no number, and else it stays infinite.
    have hproduct : UnpackedFloat.mul Format.binary64 (.infinity s) y.toModel.unpack = .notANumber ∨
        ∃ t, UnpackedFloat.mul Format.binary64 (.infinity s) y.toModel.unpack = .infinity t := by
      cases y.toModel.unpack with
      | notANumber => exact .inl rfl
      | zero t => exact .inl rfl
      | infinity t => exact .inr ⟨_, rfl⟩
      | finite t m e hm => exact .inr ⟨_, rfl⟩
    rw [hx] at h
    rcases hproduct with hproduct | ⟨t, hproduct⟩
    · rw [hproduct, hnumber] at h
      cases h
    · rw [hproduct, hinfinite] at h
      cases h

/-! ## Texts -/

/-- Zeros of either sign have the same texts. -/
theorem text_plainZero (r : Number.Radix) (x : Float) : r.text (plainZero x) = r.text x := by
  rcases plainZero_cases x with hplain | ⟨hplain, s, hs⟩
  · rw [hplain]
  · have hfinite : x.isFinite = true := isFinite_of_plainZero (by rw [hplain]; rfl)
    have hx : packed x.toModel.unpack = x := Number.ofModel_pack hfinite
    rw [hplain, ← hx, hs]
    cases s <;> cases r <;> decide +kernel

end DeskCalc.Expression

import DeskCalc.Proofs.Measure.Pairs
import DeskCalc.Proofs.Query.SumConversions

/-!
# The spacing of sums

A sum of two whole amounts may be written with blanks or without.  The two spellings are added up by
different rules and shown with different numbers of decimals, and what is shown is then converted.
So the answers are the same where both show the same number, as they do for whole base units.

The main statement is `resolve_pair`.
-/

namespace DeskCalc.Query

open DeskCalc.Measure (IsRow PlainSum WholeAmount WholePair mixedSum withUnit)
open Number (conversionText exactValue fixed leadingNumber? nearestTo)
open Text.Shape (fits_bind read?_eq_none_iff)

/-! ## Sums without blanks -/

section Compact

variable {x : PlainSum} {target shown answer : Text}

theorem operate_compact (x : PlainSum) : operate (x.text []) = .pass := by
  have hnone : compactNumbers.read? (x.text []) = none := by
    rw [read?_eq_none_iff, PlainSum.text]
    rintro parts rest hfits
    simp only [compactNumbers, fits_bind] at hfits
    obtain ⟨a, t, ha, operator, t', hoperator, -⟩ := hfits
    exact not_fits_operator (.inl rfl) ha hoperator
  rw [operate, hnone]

/-- The rule for compact sums answers a sum as it is converted, or it passes the line on. -/
theorem answerCompact_cases (htarget : IsRow isTargetChar target)
    (hsum : mixedSum (x.text []) = .found shown)
    (hconvert : Measure.convertQuantity shown target = .found answer) :
    answerCompact (sumLine x [] target) = .pass ∨
      answerCompact (sumLine x [] target) = .answer answer := by
  have hpair : answerPair (x.text []) target = .pass ∨
      answerPair (x.text []) target = .answer answer := by
    simp only [answerPair, operate_compact, hsum, Attempt.found_bind, hconvert]
    cases compactUnits.fits (x.text []) with
    | true => exact .inr rfl
    | false => exact .inl rfl
  simp only [answerCompact, compactTo_eq_none (.inl rfl)]
  cases hread : compactIn.read? (sumLine x [] target) with
  | none => exact .inl rfl
  | some r =>
    obtain ⟨pair, last⟩ := r
    obtain ⟨rfl, rfl⟩ := eq_of_asks htarget (of_compactIn hread)
    rcases hpair with hpass | hanswer
    · exact .inl (by simp only [hpass]; rfl)
    · exact .inr (by simp only [hanswer]; rfl)

end Compact

/-! ## Either spelling -/

section Spellings

variable {d : Dimension} {gap target : Text} {name : String} {g : Float}

/-- What is shown for a sum, with blanks or without, is converted if it is written in digits and
points. -/
theorem resolve_shown {x : PlainSum} {y v : Float} {places : ℕ} (hgap : IsGap gap)
    (hknown : (d.find? x.first.unit).isSome = true)
    (hsum : mixedSum (x.text gap) = .found (withUnit (fixed y places) d.base.toList))
    (hspeed : d ≠ .speed) (hpointed : ∀ c ∈ fixed y places, isPointedDigit c = true)
    (hv : leadingNumber? (fixed y places) = some v) (htarget : IsRow isTargetChar target)
    (hfound : d.find? target = some (name, g)) :
    resolve (sumLine x gap target) = some (withUnit (conversionText (v / g)) name.toList) := by
  have hvalue := convertValue_shown hgap hsum hspeed hpointed hv hfound
  rw [resolve_sumLine hgap hknown htarget (by rw [hfound]; rfl), hvalue]
  rcases hgap with rfl | rfl
  · have hconvert := convertQuantity_base (isMicroUnitChar_base.mpr hspeed) hpointed hv hfound
    rcases answerCompact_cases htarget hsum hconvert with hpass | hanswer
    · rw [hpass]
      rfl
    · rw [hanswer]
      rfl
  · rw [answerCompact_sumLine]
    rfl

/-- The number that is shown, if it is written in digits and points. -/
def Reads (amount : Text) (v : Float) : Prop :=
  (∀ c ∈ amount, isPointedDigit c = true) ∧ leadingNumber? amount = some v

/-- Without blanks, the total of the doubles is converted as six decimals show it; with blanks, the
total of the decimals is, rounded to whole base units.  Whole base units are converted alike. -/
theorem resolve_pair (p : WholePair d) (hspeed : d ≠ .speed) (htarget : IsRow isTargetChar target)
    (hfound : d.find? target = some (name, g)) :
    (∀ v, Reads (fixed p.doubleTotal 6) v → resolve (sumLine p.toSum [] target) =
      some (withUnit (conversionText (v / g)) name.toList)) ∧
    (∀ total v, p.decimalTotal = .ok total → Reads (fixed (Number.roundHalfUp total.1) 0) v →
      resolve (sumLine p.toSum [' '] target) = some (withUnit (conversionText (v / g)) name.toList)) ∧
    ∀ m k n : ℕ, exactValue p.first.value = m → exactValue p.second.value = k → m + k ≤ 2 ^ 52 →
      p.wholeTotal m k = n → ∀ gap, IsGap gap → resolve (sumLine p.toSum gap target) =
        some (withUnit (conversionText (nearestTo n / g)) name.toList) := by
  have hknown : (d.find? p.toSum.first.unit).isSome = true := by
    have hunit : d.find? p.toSum.first.unit = some (p.first.name, p.first.factor) := p.first.found
    rw [hunit]
    rfl
  refine ⟨fun v hv => ?_, fun total v htotal hv => ?_,
    fun m k n hm hk hsmall hn gap hgap => ?_⟩
  · exact resolve_shown (.inl rfl) hknown p.mixedSum_compact hspeed hv.1 hv.2 htarget hfound
  · have hsum := p.mixedSum_spaced
    rw [htotal] at hsum
    exact resolve_shown (.inr rfl) hknown hsum hspeed hv.1 hv.2 htarget hfound
  · obtain ⟨y, places, hsum, hfinite, hvalue⟩ :=
      WholePair.mixedSum_whole hgap hm hk hsmall hn
    have hlt : n < 10 ^ 21 := by
      have hle : n ≤ m + k := by
        rw [WholePair.wholeTotal] at hn
        split at hn <;> omega
      omega
    obtain ⟨hpointed, hread⟩ := Number.fixed_whole hfinite hvalue hlt places
    have hpointed' : ∀ c ∈ fixed y places, isPointedDigit c = true := by
      intro c hc
      simpa [isPointedDigit] using hpointed c hc
    exact resolve_shown hgap hknown hsum hspeed hpointed' hread htarget hfound

/-- Five kilometres and three hundred metres, in either spelling. -/
theorem resolve_pair_kilometres : Dimension.length ≠ .speed ∧ IsRow isTargetChar "km".toList ∧
    Dimension.length.find? "km".toList = some ("km", 1000) ∧
    resolve "5km+300m in km".toList = some "5.3 km".toList ∧
    resolve "5 km + 300 m in km".toList = some "5.3 km".toList := by
  have hspeed : Dimension.length ≠ .speed := by decide
  have htarget : IsRow isTargetChar "km".toList := ⟨by decide, List.all_eq_true.mp (by decide)⟩
  have hfound : Dimension.length.find? "km".toList = some ("km", 1000) := rfl
  let p : WholePair .length :=
    ⟨⟨⟨"5".toList, [], "km".toList, ⟨by decide, List.all_eq_true.mp (by decide)⟩, nofun,
        ⟨by decide, List.all_eq_true.mp (by decide)⟩⟩, rfl, "km", 1000, hfound⟩, false,
      ⟨⟨"300".toList, [], "m".toList, ⟨by decide, List.all_eq_true.mp (by decide)⟩, nofun,
        ⟨by decide, List.all_eq_true.mp (by decide)⟩⟩, rfl, "m", 1, rfl⟩⟩
  have hfirst : exactValue p.first.value = (5000 : ℕ) := by
    have hvalue : (⟨"5".toList, [], 0⟩ : Number.Numeral).value * 1000 = Number.ofInt 5000 := by
      rfl
    show exactValue ((⟨"5".toList, [], 0⟩ : Number.Numeral).value * 1000) = (5000 : ℕ)
    rw [hvalue, Number.ofInt_eq]
    exact_mod_cast (@Number.representable_int 5000 (by decide)).2
  have hsecond : exactValue p.second.value = (300 : ℕ) := by
    have hvalue : (⟨"300".toList, [], 0⟩ : Number.Numeral).value * 1 = Number.ofInt 300 := by
      rfl
    show exactValue ((⟨"300".toList, [], 0⟩ : Number.Numeral).value * 1) = (300 : ℕ)
    rw [hvalue, Number.ofInt_eq]
    exact_mod_cast (@Number.representable_int 300 (by decide)).2
  have hanswer : withUnit (conversionText (nearestTo (5300 : ℕ) / 1000)) "km".toList =
      "5.3 km".toList := by
    have hnearest : nearestTo (5300 : ℕ) = Number.ofInt 5300 := (Number.ofInt_eq 5300).symm
    rw [hnearest]
    decide
  obtain ⟨-, -, hwhole⟩ := resolve_pair p hspeed htarget hfound
  have hboth := hwhole 5000 300 5300 hfirst hsecond (by norm_num) rfl
  rw [hanswer] at hboth
  exact ⟨hspeed, htarget, hfound, hboth [] (.inl rfl), hboth [' '] (.inr rfl)⟩

/-- Two centimetres are two hundredths of a metre without blanks, and with blanks nothing. -/
theorem blanks_round : Dimension.length.find? "cm".toList = some ("cm", 0.01) ∧
    Dimension.length.find? "m".toList = some ("m", 1) ∧
    resolve "1cm+1cm in m".toList = some "0.02 m".toList ∧
    resolve "1 cm + 1 cm in m".toList = some "0 m".toList ∧
    leadingNumber? "0.02 m".toList ≠ leadingNumber? "0 m".toList := by
  decide +kernel

end Spellings

end DeskCalc.Query

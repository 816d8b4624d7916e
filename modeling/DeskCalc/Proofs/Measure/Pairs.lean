import DeskCalc.Proofs.Measure.PlainSums
import DeskCalc.Proofs.Measure.Units
import DeskCalc.Proofs.Number.Wholes

/-!
# Pairs of whole amounts

Two whole numbers of units are added as doubles and shown with six decimals if there are no blanks
between them.  If there are, they are added as the decimals that they show, and the total is rounded
to whole base units.

The main definition is `WholePair`.
-/

namespace DeskCalc.Measure

open Attempt (found_bind)
open Number (decimalAdd decimalSub exactValue nearestTo)
open Text (Shape StopsBefore isBlank isDigit)
open Text.Shape (Fits FitsOnly fits_bind fits_many1_append fits_one fits_pure fitsOnly_opt_none
  fitsOnly_pure fitsOnly_run1 of_fits_many1 read?_of_unique)

/-! ## Amounts and pairs -/

/-- A whole number of a unit of the dimension. -/
structure WholeAmount (d : Dimension) extends PlainTerm where
  isWhole : places = []
  name : String
  factor : Float
  found : d.find? unit = some (name, factor)

/-- Two whole amounts with a sign between them. -/
structure WholePair (d : Dimension) where
  first : WholeAmount d
  negative : Bool
  second : WholeAmount d

variable {d : Dimension}

/-- The amount in base units. -/
def WholeAmount.value (t : WholeAmount d) : Float :=
  t.number.value * t.factor

namespace WholePair

variable (p : WholePair d)

def toSum : PlainSum :=
  ⟨p.first.toPlainTerm, [(p.negative, p.second.toPlainTerm)], List.cons_ne_nil _ _⟩

/-- The total of the doubles. -/
def doubleTotal : Float :=
  if p.negative then p.first.value - p.second.value else p.first.value + p.second.value

/-- The total of the decimals that the doubles show. -/
def decimalTotal : Except Fault (Float × ℤ) :=
  if p.negative then decimalSub p.first.value p.second.value (some 0) (some 0)
  else decimalAdd p.first.value p.second.value (some 0) (some 0)

end WholePair

/-! ## Without blanks -/

namespace WholeAmount

variable (t : WholeAmount d) {rest : Text}

theorem decimalText_eq : decimalText t.number = t.whole :=
  if_pos (List.isEmpty_iff.mpr t.isWhole)

theorem fitsOnly_decimal (hdigit : StopsBefore isDigit rest) (hpoint : StopsBefore (· == '.') rest) :
    FitsOnly decimal (t.whole ++ rest) t.number rest := by
  have hnumber : t.number = ⟨t.whole, [], 0⟩ := by rw [PlainTerm.number, t.isWhole]
  have hrun : FitsOnly Shape.digits (t.whole ++ rest) t.whole rest :=
    fitsOnly_run1 t.digits.1 t.digits.2 hdigit
  rw [hnumber]
  exact hrun.bind ((fitsOnly_opt_none fun places _ => not_fits_decimalPoint hpoint places).bind
    (fitsOnly_pure _ _))

end WholeAmount

namespace WholePair

variable (p : WholePair d)

theorem text_compact : p.toSum.text [] = p.first.whole ++
    (p.first.unit ++ signOf p.negative :: (p.second.whole ++ p.second.unit)) := by
  simp [PlainSum.text, toSum, PlainTerm.text, WholeAmount.decimalText_eq]

/-- The first unit ends where the sign stands. -/
theorem eq_of_unit {u w : Text} {c : Char} (hu : ∀ b ∈ u, isMicroUnitChar b = true)
    (hc : isSign c = true)
    (h : u ++ c :: w = p.first.unit ++ signOf p.negative :: (p.second.whole ++ p.second.unit)) :
    u = p.first.unit ∧ c = signOf p.negative ∧ w = p.second.whole ++ p.second.unit := by
  rcases List.append_eq_append_iff.mp h with ⟨v, hunit, hv⟩ | ⟨v, rfl, hv⟩
  · cases v with
    | nil =>
      obtain ⟨rfl, rfl⟩ := List.cons.inj hv
      exact ⟨by rw [hunit, List.append_nil], rfl, rfl⟩
    | cons b v =>
      obtain ⟨rfl, -⟩ := List.cons.inj hv
      have hletter := isSign_of_isUnitLetter (p.first.letters.2 c (by simp [hunit]))
      rw [hc] at hletter
      cases hletter
  · cases v with
    | nil =>
      obtain ⟨rfl, rfl⟩ := List.cons.inj hv
      exact ⟨List.append_nil _, rfl, rfl⟩
    | cons b v =>
      obtain ⟨-, hv⟩ := List.cons.inj hv
      obtain ⟨a, s, hwhole⟩ := List.exists_cons_of_ne_nil p.second.digits.1
      have ha : isDigit a = true := p.second.digits.2 a (by simp [hwhole])
      rw [hwhole] at hv
      cases v with
      | nil =>
        obtain ⟨rfl, -⟩ := List.cons.inj hv
        rw [isDigit_of_isSign hc] at ha
        cases ha
      | cons e v =>
        obtain ⟨rfl, -⟩ := List.cons.inj hv
        rw [isDigit_of_isMicroUnitChar (hu a (by simp))] at ha
        cases ha

theorem read?_compactPair : compactPair.read? (p.toSum.text []) =
    some ((p.first.number, p.first.unit), signOf p.negative, (p.second.number, p.second.unit)) := by
  obtain ⟨hdigit, hpoint⟩ := @PlainTerm.stopsBefore_text [] p.first.toPlainTerm
    (List.forall_mem_nil _) (signOf p.negative :: (p.second.whole ++ p.second.unit))
  have hfirst := p.first.fitsOnly_decimal hdigit hpoint
  obtain ⟨hdigit', hpoint'⟩ := stopsBefore_gap (List.forall_mem_nil _) p.second.wellFormed.unit.2
  have hsecond := p.second.fitsOnly_decimal hdigit' hpoint'
  have hunit := fitsOnly_unitToEnd p.second.wellFormed.unit.1 p.second.wellFormed.unit.2
  rw [text_compact]
  have hfits : Fits compactPair (p.first.whole ++
      (p.first.unit ++ signOf p.negative :: (p.second.whole ++ p.second.unit)))
      ((p.first.number, p.first.unit), signOf p.negative, (p.second.number, p.second.unit)) [] := by
    simp only [compactPair, fits_bind, fits_one, fits_pure]
    exact ⟨_, _, hfirst.fits_iff.mpr ⟨rfl, rfl⟩, _, _, fits_many1_append p.first.letters.1
      p.first.wellFormed.unit.2 _, _, _, ⟨rfl, PlainSum.isSign_signOf p.negative⟩, _, _,
      hsecond.fits_iff.mpr ⟨rfl, rfl⟩, _, _, hunit.fits_iff.mpr ⟨rfl, rfl⟩, rfl, rfl⟩
  refine read?_of_unique hfits ?_
  intro pair rest h
  simp only [compactPair, fits_bind, fits_one, fits_pure] at h
  obtain ⟨n, t, hn, u, s, hu, c, w, ⟨rfl, hc⟩, m, r, hm, v, r', hv, rfl, -⟩ := h
  obtain ⟨rfl, rfl⟩ := hfirst.fits_iff.mp hn
  obtain ⟨-, hchars, hsplit⟩ := of_fits_many1 hu
  obtain ⟨rfl, rfl, rfl⟩ := p.eq_of_unit hchars hc hsplit
  obtain ⟨rfl, rfl⟩ := hsecond.fits_iff.mp hm
  obtain ⟨rfl, rfl⟩ := hunit.fits_iff.mp hv
  rfl

/-- Without blanks, the total of the doubles is shown with six decimals. -/
theorem mixedSum_compact : mixedSum (p.toSum.text []) =
    .found (withUnit (Number.fixed p.doubleTotal 6) d.base.toList) := by
  have hslash : '/' ∉ p.toSum.text [] := p.toSum.slash_not_mem (List.forall_mem_nil _)
  have hsum : sumCompact? (p.toSum.text []) =
      some (withUnit (Number.fixed p.doubleTotal 6) d.base.toList) := by
    have htotal : (if signOf p.negative == '+' then p.first.value + p.second.value
        else p.first.value - p.second.value) = p.doubleTotal := by
      rw [doubleTotal]
      cases p.negative <;> rfl
    rw [sumCompact?, p.read?_compactPair]
    simp only [Option.bind_eq_bind, Option.bind_some, toBase?, find?_eq p.first.found,
      find?_eq p.second.found, Option.map_some, if_true, ← htotal]
    rfl
  rw [mixedSum, (fractions_eq_none hslash).1]
  simp only [hsum]

end WholePair

/-! ## With blanks -/

theorem placesShown_digits {s : Text} (hs : ∀ c ∈ s, isDigit c = true) : Number.placesShown s = 0 := by
  have hstrip : Text.strip s = s := Query.strip_eq_self fun c hc => Text.isBlank_of_isDigit (hs c hc)
  have hdrop : s.dropWhile (· ≠ '.') = [] := by
    rw [List.dropWhile_eq_nil_iff]
    intro c hc
    rw [decide_eq_true_iff]
    rintro rfl
    cases hs _ hc
  rw [Number.placesShown, hstrip, hdrop]
  rfl

theorem WholeAmount.readSummand_text (t : WholeAmount d) {gap before behind : Text}
    (hbefore : ∀ c ∈ before, isBlank c = true) (hbehind : ∀ c ∈ behind, isBlank c = true)
    (hgap : ∀ c ∈ gap, isBlank c = true) :
    readSummand (before ++ (t.text gap ++ behind)) = .found ⟨⟨d, t.name, t.factor⟩, t.value, 0⟩ := by
  have hplaces : Number.placesShown (decimalText t.number) = 0 := by
    rw [t.decimalText_eq]
    exact placesShown_digits t.digits.2
  rw [t.toPlainTerm.readSummand_text hbefore hbehind hgap, find?_eq t.found, hplaces]
  rfl

namespace WholePair

variable (p : WholePair d)

theorem pieces_spaced : pieces (p.toSum.text [' ']) =
    [.operand (p.first.text [' '] ++ [' ']), .operator (signOf p.negative),
      .operand (' ' :: p.second.text [' '])] := by
  have hblank (before : Option Char) : hyphenated before [' '] = true :=
    hyphenated_of_not_sign (List.forall_mem_singleton.mpr rfl)
  have hfirst : hyphenated none (p.first.text [' '] ++ [' ']) = true :=
    hyphenated_append (p.first.hyphenated_text isBlank_of_mem_space none) (hblank none)
  have hsecond : hyphenated (some (signOf p.negative)) (' ' :: p.second.text [' ']) = true := by
    have hboth := hyphenated_append (hblank (some (signOf p.negative)))
      (p.second.hyphenated_text isBlank_of_mem_space none)
    exact hboth
  have hsolid {t : PlainTerm} {s : Text} (hs : ∀ c ∈ t.text [' '], c ∈ s) :
      (Piece.operand s).isSolid = true := by
    obtain ⟨c, u, hu, hc⟩ := t.exists_head
    have hmem : c ∈ s := hs c (by simp [PlainTerm.text, hu])
    rw [Piece.isSolid, Bool.not_eq_true', List.all_eq_false]
    exact ⟨c, hmem, by rw [Text.isBlank_of_isDigit hc]; exact Bool.false_ne_true⟩
  have htext : p.toSum.text [' '] = (p.first.text [' '] ++ [' ']) ++
      signOf p.negative :: ' ' :: p.second.text [' '] := by
    simp [PlainSum.text, toSum]
  rw [pieces, htext, splitFrom_sign hfirst (PlainSum.isSign_signOf _)
    (Text.stopsBefore_cons.mpr (by decide)), splitFrom_operand hsecond,
    List.filter_cons_of_pos (hsolid fun _ hc => List.mem_append_left _ hc),
    List.filter_cons_of_pos rfl,
    List.filter_cons_of_pos (hsolid fun _ hc => List.mem_cons_of_mem _ hc), List.filter_nil]

/-- One summand of the dimension is added as the sign in front of it asks. -/
theorem addPieces_operand {total : Float} {places : ℤ} {c : Char} {s : Text} {x : Summand}
    (hread : readSummand s = .found x) (hdimension : x.unit.dimension = d) :
    addPieces d total places [.operator c, .operand s] =
      combine c total x.amount places x.places >>= fun sum => .found sum.1 := by
  have hrequire : Attempt.require (x.unit.dimension == d) = .found () := by
    rw [hdimension, beq_self_eq_true]
    rfl
  rw [addPieces, hread, found_bind, hrequire, found_bind]
  have hend (total : Float) (places : ℤ) : addPieces d total places [] = .found total := by
    rw [addPieces]
  simp only [hend]

theorem combine_eq_decimalTotal :
    combine (signOf p.negative) p.first.value p.second.value 0 0 = .ofExcept p.decimalTotal := by
  rw [combine, decimalTotal]
  cases p.negative with
  | true =>
    rw [if_pos rfl, if_neg (by decide)]
    cases decimalSub p.first.value p.second.value (some 0) (some 0) <;> rfl
  | false =>
    rw [if_neg Bool.false_ne_true, if_pos (by decide)]
    cases decimalAdd p.first.value p.second.value (some 0) (some 0) <;> rfl

/-- With blanks, the total of the decimals is shown in whole base units. -/
theorem mixedSum_spaced : mixedSum (p.toSum.text [' ']) = .ofExcept (p.decimalTotal.map fun total =>
    withUnit (Number.fixed (Number.roundHalfUp total.1) 0) d.base.toList) := by
  have hslash : '/' ∉ p.toSum.text [' '] := p.toSum.slash_not_mem (List.forall_mem_singleton.mpr rfl)
  have hfirst : readSummand (p.first.text [' '] ++ [' ']) =
      .found ⟨⟨d, p.first.name, p.first.factor⟩, p.first.value, 0⟩ := by
    have hread := p.first.readSummand_text (List.forall_mem_nil _) isBlank_of_mem_space
      isBlank_of_mem_space
    rwa [List.nil_append] at hread
  have hsecond : readSummand (' ' :: p.second.text [' ']) =
      .found ⟨⟨d, p.second.name, p.second.factor⟩, p.second.value, 0⟩ := by
    have hread := p.second.readSummand_text isBlank_of_mem_space (List.forall_mem_nil _)
      isBlank_of_mem_space
    rwa [List.append_nil] at hread
  have htotal : addPieces d p.first.value 0
      [.operator (signOf p.negative), .operand (' ' :: p.second.text [' '])] =
      .ofExcept (p.decimalTotal.map Prod.fst) := by
    rw [addPieces_operand hsecond rfl, Nat.cast_zero, combine_eq_decimalTotal]
    cases p.decimalTotal <;> rfl
  have hsum : mixedSum (p.toSum.text [' ']) = sumPieces (pieces (p.toSum.text [' '])) := by
    rw [mixedSum, (fractions_eq_none hslash).1]
    simp only [sumCompact?_eq_none p.toSum.compactPair_eq_none]
  rw [hsum, pieces_spaced, sumPieces, List.length_cons, List.length_singleton, Attempt.require,
    if_pos (by decide), found_bind, hfirst, found_bind]
  show (addPieces d p.first.value 0 _ >>= _) = _
  rw [htotal]
  cases p.decimalTotal with
  | error e => rfl
  | ok total =>
    have hround : Number.roundTo total.1 0 = .ok (Number.roundHalfUp total.1) := if_pos rfl
    simp only [Except.map, Attempt.ofExcept, found_bind, Nat.zero_min, hround]
    rfl

/-! ## Whole base units -/

/-- The sum or the difference of two whole numbers. -/
def wholeTotal (m k : ℕ) : ℤ :=
  if p.negative then m - k else m + k

variable {p} {m k n : ℕ}

theorem doubleTotal_whole (hfirst : p.first.value.isFinite = true)
    (hsecond : p.second.value.isFinite = true) (hm : exactValue p.first.value = m)
    (hk : exactValue p.second.value = k) (hsmall : m + k ≤ 2 ^ 53) :
    p.doubleTotal.isFinite = true ∧ exactValue p.doubleTotal = p.wholeTotal m k := by
  rw [doubleTotal, wholeTotal]
  split
  · have hneg : exactValue (-p.second.value) = (-k : ℤ) := by
      rw [Number.exactValue_neg hsecond, hk]
      push_cast
      rfl
    rw [Number.sub_eq_add (Number.isNaN_of_isFinite hsecond), sub_eq_add_neg]
    exact Number.add_whole hfirst (Number.isFinite_neg hsecond) hm hneg (by omega)
  · exact Number.add_whole hfirst hsecond hm hk (by omega)

theorem decimalTotal_whole (hfirst : p.first.value.isFinite = true)
    (hsecond : p.second.value.isFinite = true) (hm : exactValue p.first.value = m)
    (hk : exactValue p.second.value = k) (hsmall : m + k ≤ 2 ^ 53) :
    p.decimalTotal = .ok (nearestTo (p.wholeTotal m k), 0) := by
  have hshown : Number.shownValue p.first.value = m :=
    Number.shownValue_of_int hfirst hm (by omega)
  have hshown' : Number.shownValue p.second.value = k :=
    Number.shownValue_of_int hsecond hk (by omega)
  have hzero : ∀ j ∈ some (0 : ℤ), j ≤ 3900 := by
    rintro j ⟨⟩
    norm_num
  rw [decimalTotal, wholeTotal]
  split
  · rw [decimalSub, Number.decimalAdd_eq hfirst (Number.isFinite_neg hsecond) hzero hzero,
      Number.shownValue_neg hsecond, hshown, hshown', ← sub_eq_add_neg]
    push_cast
    rfl
  · rw [Number.decimalAdd_eq hfirst hsecond hzero hzero, hshown, hshown']
    push_cast
    rfl

/-- Whether there are blanks or not, whole base units are added up to what they are. -/
theorem mixedSum_whole {gap : Text} (hgap : gap = [] ∨ gap = [' '])
    (hm : exactValue p.first.value = m) (hk : exactValue p.second.value = k)
    (hsmall : m + k ≤ 2 ^ 52) (hn : p.wholeTotal m k = n) : ∃ (y : Float) (places : ℕ),
      mixedSum (p.toSum.text gap) = .found (withUnit (Number.fixed y places) d.base.toList) ∧
        y.isFinite = true ∧ exactValue y = n := by
  have htotal : n ≤ m + k := by
    rw [wholeTotal] at hn
    split at hn <;> omega
  have hfirst := Number.isFinite_of_nat hm (by omega)
  have hsecond := Number.isFinite_of_nat hk (by omega)
  rcases hgap with rfl | rfl
  · obtain ⟨hfinite, hvalue⟩ := doubleTotal_whole hfirst hsecond hm hk (by omega)
    rw [hn, Int.cast_natCast] at hvalue
    exact ⟨_, _, p.mixedSum_compact, hfinite, hvalue⟩
  · obtain ⟨hfinite, hvalue⟩ := @Number.representable_int n (by omega)
    obtain ⟨hfinite', hvalue'⟩ := Number.roundHalfUp_whole hfinite hvalue (by omega)
    refine ⟨_, 0, ?_, hfinite', hvalue'⟩
    rw [mixedSum_spaced, decimalTotal_whole hfirst hsecond hm hk (by omega), hn]
    rfl

end WholePair

end DeskCalc.Measure

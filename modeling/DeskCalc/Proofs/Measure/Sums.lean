import DeskCalc.Proofs.Measure.Operands
import DeskCalc.Proofs.Number.Sums

/-!
# Sums of operands

A text is cut at its separating signs into operands and signs that take turns.  Blank operands are
left out and a sign at the very end adds nothing, so that the sums that are computed are the
complete ones, and these with one more sign and blanks behind them.

The main definition is `MixedSum`, and the main statement is `mixedSum_iff`.
-/

namespace DeskCalc

/-- What an attempt makes of a computation that has to succeed. -/
def Attempt.ofExcept {α : Type} : Except Fault α → Attempt α
  | .ok a => .found a
  | .error e => .broken e

namespace Measure

open Attempt (bind_eq_found)
open Number (decimalAdd decimalSub)
open Text (StopsBefore isBlank)

/-! ## Signs and operands in turn -/

section Chains

variable {before : Option Char} {w taken : Text} {ps : List (Char × Text)}

/-- Signs, each with what stands behind it, as the parts of a sum. -/
def chain (ps : List (Char × Text)) : List Piece :=
  ps.flatMap fun p => [.operator p.1, .operand p.2]

/-- Signs, each with what stands behind it, as one text. -/
def chainText (ps : List (Char × Text)) : Text :=
  ps.flatMap fun p => p.1 :: p.2

theorem length_chain (ps : List (Char × Text)) : (chain ps).length = 2 * ps.length := by
  induction ps with
  | nil => rfl
  | cons p ps ih =>
    have hchain : chain (p :: ps) = .operator p.1 :: .operand p.2 :: chain ps := rfl
    rw [hchain, List.length_cons, List.length_cons, ih, List.length_cons]
    omega

/-- However a text is cut, signs and operands take turns. -/
theorem exists_chain (before : Option Char) (taken s : Text) :
    ∃ w ps, splitFrom before taken s = .operand w :: chain ps ∧ (∀ p ∈ ps, isSign p.1 = true) ∧
      taken.reverse ++ s = w ++ chainText ps := by
  induction s generalizing before taken with
  | nil => exact ⟨taken.reverse, [], rfl, nofun, rfl⟩
  | cons c s ih =>
    rw [splitFrom]
    split
    next hseparates =>
      rw [separates_eq, Bool.and_eq_true] at hseparates
      obtain ⟨w, ps, hsplit, hsigns, htext⟩ := ih (some c) []
      refine ⟨taken.reverse, (c, w) :: ps, ?_, List.forall_mem_cons.mpr ⟨hseparates.1, hsigns⟩, ?_⟩
      · rw [hsplit]
        rfl
      · rw [List.reverse_nil, List.nil_append] at htext
        rw [htext]
        rfl
    · obtain ⟨w, ps, hsplit, hsigns, htext⟩ := ih (some c) (c :: taken)
      refine ⟨w, ps, hsplit, hsigns, ?_⟩
      rw [← htext, List.reverse_cons, List.append_assoc, List.singleton_append]

theorem not_letter_of_isSign {c : Char} (h : isSign c = true) : Text.isLetter c = false := by
  rw [isSign, Bool.or_eq_true, beq_iff_eq, beq_iff_eq] at h
  rcases h with rfl | rfl <;> rfl

/-- Whatever is cut at its signs only is cut at all of them. -/
theorem splitFrom_chain (hsigns : ∀ p ∈ ps, isSign p.1 = true)
    (hstops : ∀ p ∈ ps, StopsBefore Text.isLetter p.2)
    (hwhole : ∀ p ∈ ps, hyphenated none p.2 = true) :
    splitFrom before taken (chainText ps) = .operand taken.reverse :: chain ps := by
  induction ps generalizing before taken with
  | nil => rfl
  | cons p ps ih =>
    obtain ⟨hsign, hsigns⟩ := List.forall_mem_cons.mp hsigns
    obtain ⟨hstop, hstops⟩ := List.forall_mem_cons.mp hstops
    obtain ⟨hhyphens, hwhole⟩ := List.forall_mem_cons.mp hwhole
    have htext : chainText (p :: ps) = p.1 :: (p.2 ++ chainText ps) := rfl
    have hafter : StopsBefore Text.isLetter (p.2 ++ chainText ps) := by
      obtain ⟨c, v⟩ := p
      cases v with
      | cons d v => exact hstop
      | nil =>
        cases ps with
        | nil => rfl
        | cons q ps =>
          exact Text.stopsBefore_cons.mpr (not_letter_of_isSign (hsigns q (by simp)))
    rw [htext, splitFrom, if_pos (separates_of_sign hsign hafter),
      splitFrom_append (hyphenated_mono hhyphens), ih hsigns hstops hwhole]
    simp [chain]

end Chains

/-! ## Complete sums -/

/-- An operand behind the first one, with the sign in front of it. -/
structure Addend where
  negative : Bool
  operand : Operand

namespace Addend

/-- The sign and the operand as they are written. -/
def written (t : Addend) : Char × Text :=
  (if t.negative then '-' else '+', t.operand.text)

/-- A total and its precision, with one more operand added to it or subtracted from it. -/
def addTo (total : Float × ℤ) (t : Addend) : Except Fault (Float × ℤ) :=
  let x := t.operand.summand
  if t.negative then decimalSub total.1 x.amount (some total.2) (some x.places)
  else decimalAdd total.1 x.amount (some total.2) (some x.places)

theorem isSign_written (t : Addend) : isSign t.written.1 = true := by
  rw [written]
  split <;> rfl

end Addend

/-- Two or more operands of one dimension with signs between them. -/
structure MixedSum where
  first : Operand
  others : List Addend
  nonempty : others ≠ []
  alike : ∀ t ∈ others, t.operand.unit.dimension = first.unit.dimension

namespace MixedSum

def text (x : MixedSum) : Text :=
  x.first.text ++ chainText (x.others.map Addend.written)

/-- The operands added up in base units, from left to right, as the decimals that they show. -/
def total (x : MixedSum) : Except Fault (Float × ℤ) :=
  x.others.foldlM Addend.addTo (x.first.summand.amount, x.first.summand.places)

/-- The total in the base unit, with the decimals of the first operand. -/
def answer (x : MixedSum) : Except Fault Text := do
  let (total, _) ← x.total
  let rounded ← Number.roundTo total (min x.first.summand.places 10)
  return withUnit (Number.fixed rounded (min x.first.summand.places 6))
    x.first.unit.dimension.base.toList

end MixedSum

/-- A sign that nothing but blanks follow, or nothing at all. -/
def Trails (tail : Text) : Prop :=
  tail = [] ∨ ∃ c blanks, tail = c :: blanks ∧ isSign c = true ∧ ∀ b ∈ blanks, isBlank b = true

/-! ## From a sum to its parts -/

section Parts

variable {first : Operand} {others : List Addend} {tail : Text} {d : Dimension}

theorem not_letter_of_isBlank {c : Char} (h : isBlank c = true) : Text.isLetter c = false := by
  by_contra hletter
  rw [Bool.not_eq_false] at hletter
  rw [Query.isBlank_of_isTargetChar (Query.isTargetChar_of_isLetter hletter)] at h
  cases h

theorem not_letter_of_isDigit {c : Char} (h : Text.isDigit c = true) : Text.isLetter c = false := by
  by_contra hletter
  rw [Bool.not_eq_false] at hletter
  rw [Query.isDigit_of_isTargetChar (Query.isTargetChar_of_isLetter hletter)] at h
  cases h

theorem not_sign_of_isBlank {c : Char} (h : isBlank c = true) : isSign c = false :=
  Operand.isSign_of_isAmountChar (Query.isAmountChar_of_isBlank h)

theorem Operand.stopsBefore_text (o : Operand) : StopsBefore Text.isLetter o.text := by
  rw [Operand.text]
  cases hbefore : o.before with
  | nil =>
    obtain ⟨c, t, ht, hc⟩ := o.wellFormed.literal_head
    rw [WrittenOperand.textWith, ht]
    exact Text.stopsBefore_cons.mpr (not_letter_of_isDigit hc)
  | cons c blanks =>
    have hc : isBlank c = true := o.blank_before c (hbefore ▸ List.mem_cons_self)
    exact Text.stopsBefore_cons.mpr (not_letter_of_isBlank hc)

/-- Operands are not left out. -/
theorem Operand.isSolid_text (o : Operand) : (Piece.operand o.text).isSolid = true := by
  obtain ⟨c, t, ht, hc⟩ := o.wellFormed.literal_head
  have hmem : c ∈ o.text := by
    rw [Operand.text, WrittenOperand.textWith, ht]
    simp
  rw [Piece.isSolid, Bool.not_eq_true', List.all_eq_false]
  exact ⟨c, hmem, by rw [Text.isBlank_of_isDigit hc]; exact Bool.false_ne_true⟩

theorem filter_written (others : List Addend) :
    (chain (others.map Addend.written)).filter Piece.isSolid = chain (others.map Addend.written) := by
  rw [List.filter_eq_self]
  intro p hp
  obtain ⟨q, hq, hp⟩ := List.mem_flatMap.mp hp
  obtain ⟨t, -, rfl⟩ := List.mem_map.mp hq
  rcases List.mem_pair.mp hp with rfl | rfl
  · rfl
  · exact t.operand.isSolid_text

/-- A trailing sign is a chain of its own, of which only the sign is left. -/
theorem Trails.exists_chain (h : Trails tail) : ∃ ps, tail = chainText ps ∧
    (∀ p ∈ ps, isSign p.1 = true ∧ ∀ b ∈ p.2, isBlank b = true) ∧
    (chain ps).filter Piece.isSolid = (tail.take 1).map Piece.operator := by
  rcases h with rfl | ⟨c, blanks, rfl, hc, hblanks⟩
  · exact ⟨[], rfl, nofun, rfl⟩
  · refine ⟨[(c, blanks)], by simp [chainText], List.forall_mem_singleton.mpr ⟨hc, hblanks⟩, ?_⟩
    have hblank : (Piece.operand blanks).isSolid = false := by
      rw [Piece.isSolid, List.all_eq_true.mpr hblanks]
      rfl
    have hsolid : (Piece.operator c).isSolid = true := rfl
    simp [chain, hblank, hsolid]

theorem stopsBefore_blanks {p : Char → Bool} (hp : ∀ c, isBlank c = true → p c = false)
    {blanks : Text} (h : ∀ b ∈ blanks, isBlank b = true) : StopsBefore p blanks := by
  cases blanks with
  | nil => rfl
  | cons b blanks => exact Text.stopsBefore_cons.mpr (hp b (h b List.mem_cons_self))

/-- A sum, perhaps with a trailing sign, is cut into its operands and signs. -/
theorem pieces_text (htail : Trails tail) :
    pieces (first.text ++ (chainText (others.map Addend.written) ++ tail)) =
      .operand first.text :: (chain (others.map Addend.written) ++
        (tail.take 1).map Piece.operator) := by
  obtain ⟨ps, rfl, hps, hmark⟩ := htail.exists_chain
  have hchain : chainText (others.map Addend.written) ++ chainText ps =
      chainText (others.map Addend.written ++ ps) :=
    List.flatMap_append.symm
  have hsplit : splitFrom none [] (first.text ++ chainText (others.map Addend.written ++ ps)) =
      .operand first.text :: chain (others.map Addend.written ++ ps) := by
    rw [splitFrom_append (first.hyphenated_text none), splitFrom_chain, List.append_nil,
      List.reverse_reverse]
    · refine List.forall_mem_append.mpr ⟨List.forall_mem_map.mpr fun t _ => t.isSign_written,
        fun p hp => (hps p hp).1⟩
    · refine List.forall_mem_append.mpr ⟨List.forall_mem_map.mpr fun t _ =>
        t.operand.stopsBefore_text, fun p hp => ?_⟩
      exact stopsBefore_blanks (fun _ => not_letter_of_isBlank) (hps p hp).2
    · refine List.forall_mem_append.mpr ⟨List.forall_mem_map.mpr fun t _ =>
        t.operand.hyphenated_text none, fun p hp => ?_⟩
      exact hyphenated_of_not_sign fun c hc => not_sign_of_isBlank ((hps p hp).2 c hc)
  have hboth : chain (others.map Addend.written ++ ps) =
      chain (others.map Addend.written) ++ chain ps :=
    List.flatMap_append
  rw [hchain, pieces, hsplit, List.filter_cons_of_pos first.isSolid_text, hboth,
    List.filter_append, filter_written, hmark]

/-! ## Computing a sum -/

theorem length_codes_le (s : Text) : (Text.codes s).length ≤ s.length := by
  fun_induction Text.codes s with
  | case1 => simp_all; omega
  | case2 => simp_all
  | case3 => rfl
  | case4 => rfl

theorem placesShown_le (s : Text) : Number.placesShown s ≤ s.length := by
  obtain ⟨left, right, hs, -⟩ := Text.exists_strip s
  calc Number.placesShown s
      ≤ ((((Text.strip s).dropWhile (· ≠ '.')).drop 1).takeWhile (· ≠ '.')).length :=
        length_codes_le _
    _ ≤ (((Text.strip s).dropWhile (· ≠ '.')).drop 1).length := (List.takeWhile_sublist _).length_le
    _ ≤ ((Text.strip s).dropWhile (· ≠ '.')).length := by
        rw [List.length_drop]
        exact Nat.sub_le _ _
    _ ≤ (Text.strip s).length := List.length_dropWhile_le ..
    _ ≤ s.length := by
        conv_rhs => rw [hs]
        simp only [List.length_append]
        omega

/-- No more places are shown of an operand than it has characters. -/
theorem Operand.places_le (o : Operand) : o.summand.places ≤ o.text.length := by
  have hliteral : o.written.literal.length ≤ o.text.length := by
    simp only [text, WrittenOperand.textWith, List.length_append]
    omega
  exact (placesShown_le _).trans hliteral

/-- With so few decimals, all that keeps two numbers from being added is that one is infinite. -/
theorem decimalAdd_cases (a b : Float) {pa pb : ℤ} (hpa : pa ≤ 300) (hpb : pb ≤ 300) :
    (∃ x, decimalAdd a b (some pa) (some pb) = .ok (x, max pa pb)) ∨
      decimalAdd a b (some pa) (some pb) = .error .notFinite := by
  by_cases hfinite : a.isFinite = true ∧ b.isFinite = true
  · left
    refine ⟨_, Number.decimalAdd_eq hfinite.1 hfinite.2 ?_ ?_⟩
    · rintro k ⟨⟩
      omega
    · rintro k ⟨⟩
      omega
  · right
    have hplaces (x : Float) : Number.shownPlaces x ≤ 1100 := by
      by_cases hx : x.isFinite = true
      · exact Number.shownPlaces_le hx
      · rw [Number.shownPlaces, if_neg hx]
        exact Nat.zero_le _
    have hwidth : max (max pa pb).toNat (max (Number.shownPlaces a) (Number.shownPlaces b)) ≤ 3900 := by
      have ha := hplaces a
      have hb := hplaces b
      omega
    have hinfinite : (!a.isFinite || !b.isFinite) = true := by
      simpa [imp_iff_not_or] using hfinite
    simp only [decimalAdd, Option.getD_some, Number.checkWidth_eq hwidth, hinfinite]
    rfl

theorem Addend.addTo_cases (t : Addend) {total : Float × ℤ} (htotal : total.2 ≤ 300)
    (hshort : t.operand.text.length ≤ 300) :
    (∃ sum, t.addTo total = .ok sum ∧ sum.2 ≤ 300) ∨ t.addTo total = .error .notFinite := by
  have hplaces : (t.operand.summand.places : ℤ) ≤ 300 := by
    exact_mod_cast t.operand.places_le.trans hshort
  have hadd (b : Float) : (∃ sum, decimalAdd total.1 b (some total.2)
      (some t.operand.summand.places) = .ok sum ∧ sum.2 ≤ 300) ∨
      decimalAdd total.1 b (some total.2) (some t.operand.summand.places) = .error .notFinite := by
    rcases decimalAdd_cases total.1 b htotal hplaces with ⟨x, hx⟩ | hbroken
    · exact .inl ⟨_, hx, max_le htotal hplaces⟩
    · exact .inr hbroken
  rw [addTo]
  split
  · exact hadd _
  · exact hadd _

theorem combine_eq (t : Addend) (total : Float × ℤ) :
    combine t.written.1 total.1 t.operand.summand.amount total.2 t.operand.summand.places =
      .ofExcept (t.addTo total) := by
  have hsum : (if t.written.1 == '+' then
        decimalAdd total.1 t.operand.summand.amount (some total.2) (some t.operand.summand.places)
      else decimalSub total.1 t.operand.summand.amount (some total.2)
        (some t.operand.summand.places)) = t.addTo total := by
    cases hnegative : t.negative with
    | true =>
      have hsign : ¬(t.written.1 == '+') = true := by simp [Addend.written, hnegative]
      rw [if_neg hsign, Addend.addTo, if_pos hnegative]
    | false =>
      have hsign : (t.written.1 == '+') = true := by simp [Addend.written, hnegative]
      rw [if_pos hsign, Addend.addTo, if_neg (by simp [hnegative])]
  rw [combine, hsum]
  cases t.addTo total with
  | ok sum => rfl
  | error e => rfl

theorem addPieces_chain (marks : Text) (hmarks : marks.length ≤ 1) (total : Float × ℤ)
    (halike : ∀ t ∈ others, t.operand.unit.dimension = d)
    (hshort : ∀ t ∈ others, t.operand.text.length ≤ 300) :
    addPieces d total.1 total.2 (chain (others.map Addend.written) ++ marks.map Piece.operator) =
      .ofExcept ((others.foldlM Addend.addTo total).map Prod.fst) := by
  induction others generalizing total with
  | nil =>
    cases marks with
    | nil => rfl
    | cons c marks =>
      obtain rfl : marks = [] := by simpa using hmarks
      rfl
  | cons t others ih =>
    obtain ⟨hdimension, halike⟩ := List.forall_mem_cons.mp halike
    obtain ⟨hlength, hshort⟩ := List.forall_mem_cons.mp hshort
    have hread := t.operand.readSummand_text hlength
    have hchain : chain ((t :: others).map Addend.written) =
      .operator t.written.1 :: .operand t.operand.text :: chain (others.map Addend.written) := rfl
    have hrequire : Attempt.require (t.operand.summand.unit.dimension == d) = .found () := by
      have hsame : (t.operand.summand.unit.dimension == d) = true := beq_iff_eq.mpr hdimension
      rw [hsame]
      rfl
    rw [hchain, List.cons_append, List.cons_append, addPieces, hread, Attempt.found_bind, hrequire,
      Attempt.found_bind, combine_eq, List.foldlM_cons]
    cases hadd : t.addTo total with
    | error e => rfl
    | ok sum => exact ih sum halike hshort

/-- The total is found unless a number is infinite. -/
theorem foldlM_addTo_cases (hshort : ∀ t ∈ others, t.operand.text.length ≤ 300)
    {total : Float × ℤ} (htotal : total.2 ≤ 300) :
    (∃ sum, others.foldlM Addend.addTo total = .ok sum) ∨
      others.foldlM Addend.addTo total = .error .notFinite := by
  induction others generalizing total with
  | nil => exact .inl ⟨total, rfl⟩
  | cons t others ih =>
    obtain ⟨hlength, hshort⟩ := List.forall_mem_cons.mp hshort
    rw [List.foldlM_cons]
    rcases t.addTo_cases htotal hlength with ⟨sum, hsum, hprecision⟩ | hbroken
    · rw [hsum]
      exact ih hshort hprecision
    · rw [hbroken]
      exact .inr rfl

theorem exists_roundTo (x : Float) (places : ℕ) :
    ∃ y, Number.roundTo x (min places 10) = .ok y := by
  have hfew : ¬308 < min places 10 := by omega
  rw [Number.roundTo, if_neg hfew]
  split
  · exact ⟨_, rfl⟩
  · exact ⟨_, rfl⟩

theorem length_written_le {t : Addend} (h : t ∈ others) :
    t.operand.text.length ≤ (chainText (others.map Addend.written)).length := by
  obtain ⟨front, behind, rfl⟩ := List.append_of_mem h
  simp only [chainText, List.map_append, List.map_cons, List.flatMap_append, List.flatMap_cons,
    List.length_append, List.length_cons, Addend.written]
  omega

namespace MixedSum

variable {x : MixedSum}

theorem short_others (h : x.text.length ≤ 300) : ∀ t ∈ x.others, t.operand.text.length ≤ 300 := by
  intro t ht
  have hchain := length_written_le ht
  rw [text, List.length_append] at h
  omega

theorem short_first (h : x.text.length ≤ 300) : x.first.text.length ≤ 300 := by
  rw [text, List.length_append] at h
  omega

theorem answer_of_total {sum : Float × ℤ} {y : Float} (hsum : x.total = .ok sum)
    (hy : Number.roundTo sum.1 (min x.first.summand.places 10) = .ok y) :
    x.answer = .ok (withUnit (Number.fixed y (min x.first.summand.places 6))
      x.first.unit.dimension.base.toList) := by
  have hanswer : x.answer = (Number.roundTo sum.1 (min x.first.summand.places 10)).bind fun y =>
      .ok (withUnit (Number.fixed y (min x.first.summand.places 6))
        x.first.unit.dimension.base.toList) := by
    rw [answer, hsum]
    rfl
  rw [hanswer, hy]
  rfl

/-- A short sum has an answer unless a number is infinite. -/
theorem answer_cases (h : x.text.length ≤ 300) :
    (∃ t, x.answer = .ok t) ∨ x.answer = .error .notFinite := by
  have hplaces : (x.first.summand.places : ℤ) ≤ 300 := by
    exact_mod_cast x.first.places_le.trans (short_first h)
  have htotal : (∃ sum, x.total = .ok sum) ∨ x.total = .error .notFinite :=
    foldlM_addTo_cases (short_others h) hplaces
  rcases htotal with ⟨sum, hsum⟩ | hbroken
  · obtain ⟨y, hy⟩ := exists_roundTo sum.1 x.first.summand.places
    exact .inl ⟨_, answer_of_total hsum hy⟩
  · exact .inr (by rw [answer, hbroken]; rfl)

/-- Of a short sum, perhaps with a trailing sign, the answer is found. -/
theorem sumPieces_text (htail : Trails tail) (h : x.text.length ≤ 300) :
    sumPieces (pieces (x.text ++ tail)) = .ofExcept x.answer := by
  have hparts : pieces (x.text ++ tail) = .operand x.first.text ::
      (chain (x.others.map Addend.written) ++ (tail.take 1).map Piece.operator) := by
    rw [text, List.append_assoc]
    exact pieces_text htail
  have htwo : decide (2 ≤ (chain (x.others.map Addend.written) ++
      (tail.take 1).map Piece.operator).length) = true := by
    obtain ⟨t, others, hothers⟩ := List.exists_cons_of_ne_nil x.nonempty
    simp [hothers, chain]
  have hread := x.first.readSummand_text (short_first h)
  have htotal : addPieces x.first.summand.unit.dimension x.first.summand.amount
      x.first.summand.places
      (chain (x.others.map Addend.written) ++ (tail.take 1).map Piece.operator) =
      .ofExcept (x.total.map Prod.fst) :=
    addPieces_chain (tail.take 1) (List.length_take_le _ _) (x.first.summand.amount, _) x.alike
      (short_others h)
  rw [hparts, sumPieces, htwo, Attempt.require, if_pos rfl, Attempt.found_bind, hread,
    Attempt.found_bind, htotal]
  cases hsum : x.total with
  | error e =>
    rw [answer, hsum]
    rfl
  | ok sum =>
    obtain ⟨y, hy⟩ := exists_roundTo sum.1 x.first.summand.places
    rw [answer_of_total hsum hy]
    simp [Attempt.ofExcept, Except.map, hy]
    rfl

end MixedSum

end Parts

/-! ## From the parts to the sum -/

section Completeness

variable {s t : Text} {d : Dimension}

theorem exists_addend {c : Char} (hc : isSign c = true) (o : Operand) :
    ∃ t : Addend, t.written = (c, o.text) ∧ t.operand = o := by
  rw [isSign, Bool.or_eq_true, beq_iff_eq, beq_iff_eq] at hc
  rcases hc with rfl | rfl
  · exact ⟨⟨false, o⟩, rfl, rfl⟩
  · exact ⟨⟨true, o⟩, rfl, rfl⟩

/-- What is added to a total are operands of its dimension behind signs, and perhaps a sign at the
end. -/
theorem of_addPieces_chain {ps : List (Char × Text)} (hsigns : ∀ p ∈ ps, isSign p.1 = true)
    {total : Float × ℤ} {x : Float}
    (h : addPieces d total.1 total.2 ((chain ps).filter Piece.isSolid) = .found x) :
    ∃ (others : List Addend) (tail : Text),
      chainText ps = chainText (others.map Addend.written) ++ tail ∧ Trails tail ∧
        ∀ t ∈ others, t.operand.unit.dimension = d := by
  induction ps generalizing total with
  | nil => exact ⟨[], [], rfl, .inl rfl, List.forall_mem_nil _⟩
  | cons p ps ih =>
    obtain ⟨c, w⟩ := p
    obtain ⟨hc, hrest⟩ := List.forall_mem_cons.mp hsigns
    have hparts : (chain ((c, w) :: ps)).filter Piece.isSolid = .operator c ::
        ((Piece.operand w :: chain ps).filter Piece.isSolid) := rfl
    rw [hparts] at h
    cases hsolid : (Piece.operand w).isSolid with
    | true =>
      rw [List.filter_cons_of_pos hsolid] at h
      obtain ⟨summand, hsummand, h⟩ := bind_eq_found.mp h
      obtain ⟨_, hdimension, h⟩ := bind_eq_found.mp h
      obtain ⟨sum, -, htotal⟩ := bind_eq_found.mp h
      obtain ⟨o, rfl, rfl⟩ := Operand.of_readSummand hsummand
      obtain ⟨others, tail, htext, htail, halike⟩ := ih hrest htotal
      obtain ⟨t, hwritten, rfl⟩ := exists_addend hc o
      refine ⟨t :: others, tail, ?_, htail, List.forall_mem_cons.mpr ⟨?_, halike⟩⟩
      · simp only [chainText] at htext ⊢
        simp [htext, hwritten]
      · exact beq_iff_eq.mp (Query.require_eq_found hdimension)
    | false =>
      have hblank : ∀ b ∈ w, isBlank b = true := by simpa [Piece.isSolid] using hsolid
      rw [List.filter_cons_of_neg (by simp [hsolid])] at h
      cases ps with
      | nil =>
        exact ⟨[], c :: w, by simp [chainText], .inr ⟨c, w, rfl, hc, hblank⟩,
          List.forall_mem_nil _⟩
      | cons q ps => cases h

/-- A text that has a sum is a complete sum, perhaps with a trailing sign. -/
theorem of_sumPieces (h : sumPieces (pieces s) = .found t) :
    ∃ (x : MixedSum) (tail : Text), s = x.text ++ tail ∧ Trails tail := by
  obtain ⟨w, ps, hsplit, hsigns, htext⟩ := exists_chain none [] s
  rw [List.reverse_nil, List.nil_append] at htext
  rw [pieces, hsplit] at h
  cases hsolid : (Piece.operand w).isSolid with
  | false =>
    rw [List.filter_cons_of_neg (by simp [hsolid])] at h
    cases ps with
    | nil => cases h
    | cons p ps => cases h
  | true =>
    rw [List.filter_cons_of_pos hsolid] at h
    obtain ⟨_, htwo, h⟩ := bind_eq_found.mp h
    obtain ⟨summand, hsummand, h⟩ := bind_eq_found.mp h
    obtain ⟨total, htotal, -⟩ := bind_eq_found.mp h
    obtain ⟨first, rfl, rfl⟩ := Operand.of_readSummand hsummand
    have htotal' : addPieces first.unit.dimension
        (first.summand.amount, (first.summand.places : ℤ)).1
        (first.summand.amount, (first.summand.places : ℤ)).2
        ((chain ps).filter Piece.isSolid) = .found total := htotal
    obtain ⟨others, tail, hchain, htail, halike⟩ := of_addPieces_chain hsigns htotal'
    have hne : others ≠ [] := by
      rintro rfl
      have hpieces : pieces s = .operand first.text :: (tail.take 1).map Piece.operator := by
        rw [htext, hchain]
        exact pieces_text htail
      have hfilter : (chain ps).filter Piece.isSolid = (tail.take 1).map Piece.operator := by
        rw [pieces, hsplit, List.filter_cons_of_pos hsolid] at hpieces
        exact (List.cons.inj hpieces).2
      have hlength := of_decide_eq_true (Query.require_eq_found htwo)
      rw [hfilter, List.length_map, List.length_take] at hlength
      omega
    refine ⟨⟨first, others, hne, halike⟩, tail, ?_, htail⟩
    rw [htext, hchain, MixedSum.text, List.append_assoc]

/-- Only a compact pair is added as one. -/
theorem sumCompact?_eq_none (h : compactPair.read? s = none) : sumCompact? s = none := by
  rw [sumCompact?, h]
  rfl

/-- Short texts that are neither a whole number with a fraction of a unit nor a compact pair have a
sum if and only if they are a complete sum of one dimension that has an answer, perhaps with a sign
behind it that nothing follows.  It is that answer, and all that keeps a complete sum from having
one is an infinite number. -/
theorem mixedSum_iff (hlength : s.length < 300) (hmixed : mixedFractionQuantity.read? s = none)
    (hpair : compactPair.read? s = none) :
    (∀ t, mixedSum s = .found t ↔
      ∃ (x : MixedSum) (tail : Text), s = x.text ++ tail ∧ Trails tail ∧ x.answer = .ok t) ∧
    ∀ (x : MixedSum) (tail : Text), s = x.text ++ tail → Trails tail →
      mixedSum s = .ofExcept x.answer ∧
        ((∃ t, x.answer = .ok t) ∨ x.answer = .error .notFinite) := by
  have hsum : mixedSum s = sumPieces (pieces s) := by
    rw [mixedSum, hmixed]
    simp only [sumCompact?_eq_none hpair]
  have hshort {x : MixedSum} {tail : Text} (htext : s = x.text ++ tail) : x.text.length ≤ 300 := by
    rw [htext, List.length_append] at hlength
    omega
  have hvalue {x : MixedSum} {tail : Text} (htext : s = x.text ++ tail) (htail : Trails tail) :
      mixedSum s = .ofExcept x.answer := by
    rw [hsum, htext]
    exact MixedSum.sumPieces_text htail (hshort htext)
  constructor
  · intro t
    constructor
    · intro hfound
      obtain ⟨x, tail, htext, htail⟩ := of_sumPieces (hsum.symm.trans hfound)
      refine ⟨x, tail, htext, htail, ?_⟩
      rw [hvalue htext htail] at hfound
      cases hanswer : x.answer with
      | ok answer =>
        rw [hanswer] at hfound
        rw [Attempt.found.inj hfound]
      | error e =>
        rw [hanswer] at hfound
        cases hfound
    · rintro ⟨x, tail, htext, htail, hanswer⟩
      rw [hvalue htext htail, hanswer]
      rfl
  · intro x tail htext htail
    exact ⟨hvalue htext htail, MixedSum.answer_cases (hshort htext)⟩

/-- Five kilometres and three metres are a complete sum. -/
theorem mixedSum_iff_metres : mixedFractionQuantity.read? "5 km + 3 m".toList = none ∧
    compactPair.read? "5 km + 3 m".toList = none ∧
    ∃ (x : MixedSum) (tail : Text), "5 km + 3 m".toList = x.text ++ tail ∧ Trails tail ∧
      x.answer = .ok "5003 m".toList := by
  have hmixed : mixedFractionQuantity.read? "5 km + 3 m".toList = none := by decide +kernel
  have hpair : compactPair.read? "5 km + 3 m".toList = none := by decide +kernel
  have hfound : mixedSum "5 km + 3 m".toList = .found "5003 m".toList := by decide +kernel
  exact ⟨hmixed, hpair, ((mixedSum_iff (by decide) hmixed hpair).1 _).mp hfound⟩

theorem MixedSum.length_pieces (x : MixedSum) :
    (pieces x.text).length = 1 + 2 * x.others.length := by
  have hparts : pieces (x.text ++ []) = .operand x.first.text ::
      (chain (x.others.map Addend.written) ++ []) := by
    rw [MixedSum.text, List.append_assoc]
    exact pieces_text (.inl rfl)
  rw [List.append_nil, List.append_nil] at hparts
  rw [hparts, List.length_cons, length_chain, List.length_map, Nat.add_comm]

/-- With one more plus behind it, it is no complete sum but is added up all the same. -/
theorem trailing_plus_added : "5 km + 3 m +".toList.length < 300 ∧
    mixedFractionQuantity.read? "5 km + 3 m +".toList = none ∧
    compactPair.read? "5 km + 3 m +".toList = none ∧
    mixedSum "5 km + 3 m +".toList = .found "5003 m".toList ∧
    ∀ x : MixedSum, x.text ≠ "5 km + 3 m +".toList := by
  refine ⟨by decide, by decide +kernel, by decide +kernel, by decide +kernel, fun x htext => ?_⟩
  have hlength := x.length_pieces
  rw [htext] at hlength
  have hfour : (pieces "5 km + 3 m +".toList).length = 4 := by decide +kernel
  omega

end Completeness

end Measure
end DeskCalc

import DeskCalc.Number.Display
import DeskCalc.Proofs.Number.Halves

/-!
# The choice among roundings

A computed number is shown as the rounding with the fewest decimals among those that are close to it
and do not look like noise, where one without a zero at its end comes first.  The choice is made by
a loop over the candidates, which keeps the best of those it has seen.

The main definitions are `Valid` and `Chosen`.
-/

namespace DeskCalc.Number

/-! ## Zeros at the end -/

section Zeros

variable {s : Text} {n : ℕ}

theorem replicate_prefix_iff {c : Char} :
    List.replicate n c <+: s ↔ n ≤ (s.takeWhile (· == c)).length := by
  induction s generalizing n with
  | nil => simp
  | cons d s ih =>
    cases n with
    | zero => simp
    | succ n =>
      rw [List.replicate_succ, List.cons_prefix_cons, ih, List.takeWhile_cons]
      by_cases hsame : d = c
      · simp [hsame]
      · simp [hsame, Ne.symm hsame]

theorem zeros_suffix_iff : zeros n <:+ s ↔ n ≤ trailingZeros s := by
  rw [← List.reverse_prefix, zeros, List.reverse_replicate, replicate_prefix_iff]
  rfl

theorem endsInArtifact_iff :
    endsInArtifact s = true ↔ ∃ d ∈ ['1', '2'], zeros 5 ++ [d] <:+ s := by
  have hsuffix (d : Char) : zeros 5 ++ [d] <:+ s ↔ d :: List.replicate 5 '0' <+: s.reverse := by
    rw [← List.reverse_prefix, List.reverse_append, zeros, List.reverse_replicate]
    rfl
  simp only [hsuffix, endsInArtifact]
  cases s.reverse with
  | nil => simp
  | cons d rest =>
    have hdigit : (d == '1' || d == '2') = true ↔ d ∈ ['1', '2'] := by simp
    simp only [List.cons_prefix_cons, replicate_prefix_iff, Bool.and_eq_true, hdigit,
      decide_eq_true_iff]
    constructor
    · exact fun h => ⟨d, h.1, rfl, h.2⟩
    · rintro ⟨_, hd, rfl, hmany⟩
      exact ⟨hd, hmany⟩

end Zeros

/-! ## Roundings that may be shown -/

/-- The text of the rounding at so many decimals. -/
def roundedText (x : Float) (places : ℕ) : Text :=
  fixed (roundScaled x places) places

/-- The rounding at so many decimals may be shown: it is close to the number, in doubles, and its
text does not look like noise. -/
structure Valid (x : Float) (places : ℕ) : Prop where
  le_six : places ≤ 6
  close : (x - roundScaled x places).abs < 1e-9
  zeros : ¬ ['0', '0'] <:+ fractionOf (roundedText x places)
  clean : ∀ d ∈ ['1', '2'], ¬ Number.zeros 5 ++ [d] <:+ roundedText x places

/-- The text of the rounding has a fraction that ends in a zero. -/
def EndsInZero (x : Float) (places : ℕ) : Prop :=
  ['0'] <:+ fractionOf (roundedText x places)

/-- The decimals at which a number is shown: the fewest valid ones without a zero at the end, or, if
there are none without, the fewest valid ones. -/
def Chosen (x : Float) (places : ℕ) : Prop :=
  IsLeast {q | Valid x q ∧ ¬EndsInZero x q} places ∨
    (∀ q, Valid x q → EndsInZero x q) ∧ IsLeast {q | Valid x q} places

theorem Chosen.unique {x : Float} {p q : ℕ} (hp : Chosen x p) (hq : Chosen x q) : p = q := by
  rcases hp with hp | ⟨hall, hp⟩ <;> rcases hq with hq | ⟨hall', hq⟩
  · exact hp.unique hq
  · exact absurd (hall' p hp.1.1) hp.1.2
  · exact absurd (hall q hq.1.1) hq.1.2
  · exact hp.unique hq

section Valid

variable {x : Float} {places : ℕ} {c : Candidate}

theorem tenPower_eq (hplaces : places ≤ 6) :
    (tenPower places).isFinite = true ∧ exactValue (tenPower places) = 10 ^ places := by
  have hsmall : ((10 ^ places : ℕ) : ℤ).natAbs ≤ 2 ^ 53 := by
    calc ((10 ^ places : ℕ) : ℤ).natAbs = 10 ^ places := Int.natAbs_natCast _
      _ ≤ 10 ^ 6 := Nat.pow_le_pow_right (by norm_num) hplaces
      _ ≤ 2 ^ 53 := by norm_num
  have hnearest : tenPower places = nearestTo ((10 ^ places : ℕ) : ℤ) := by
    apply nearest_eq_nearestTo Nat.one_pos
    · rw [Int.cast_natCast, decide_eq_false (Nat.cast_nonneg _).not_gt]
    · rw [Int.cast_natCast, Nat.abs_cast, Nat.cast_one, div_one, tenTo_eq]
  obtain ⟨hfinite, hvalue⟩ := representable_int hsmall
  rw [hnearest]
  refine ⟨hfinite, hvalue.trans ?_⟩
  push_cast
  rfl

theorem isNaN_roundHalfUp {y : Float} (hy : y.isNaN = false) : (roundHalfUp y).isNaN = false := by
  rw [roundHalfUp]
  split
  · rw [ofInt_eq]
    exact isNaN_nearestTo _
  · exact hy

theorem isNaN_roundScaled (hx : x.isFinite = true) (hplaces : places ≤ 6) :
    (roundScaled x places).isNaN = false := by
  obtain ⟨hfinite, hvalue⟩ := tenPower_eq hplaces
  have hne : exactValue (tenPower places) ≠ 0 := by
    rw [hvalue]
    positivity
  exact isNaN_div (isNaN_roundHalfUp (mul_agree hx hfinite hne).isNaN) hfinite hne

theorem close_iff (hx : x.isFinite = true) (hplaces : places ≤ 6) :
    ¬(x - roundScaled x places).abs ≥ 1e-9 ↔ (x - roundScaled x places).abs < 1e-9 :=
  (lt_iff_not_le (isNaN_abs (isNaN_sub hx (isNaN_roundScaled hx hplaces))) rfl).symm

/-- The candidates of the loop are the valid roundings. -/
theorem candidate?_eq_some_iff (hx : x.isFinite = true) (hplaces : places ≤ 6) :
    candidate? x places = some c ↔ c = ⟨places, roundScaled x places⟩ ∧ Valid x places := by
  have hzeros : 2 ≤ Candidate.zeros ⟨places, roundScaled x places⟩ ↔
      ['0', '0'] <:+ fractionOf (roundedText x places) := zeros_suffix_iff.symm
  have hclean : endsInArtifact (Candidate.text ⟨places, roundScaled x places⟩) = true ↔
      ∃ d ∈ ['1', '2'], zeros 5 ++ [d] <:+ roundedText x places := endsInArtifact_iff
  have hclose := close_iff hx hplaces
  simp only [candidate?, Bool.or_eq_true, decide_eq_true_iff, hzeros, hclean]
  split
  next hfar => exact iff_of_false nofun fun h => hclose.mpr h.2.close hfar
  next hnear =>
    split
    next hnoise =>
      refine iff_of_false nofun fun h => ?_
      rcases hnoise with hzero | ⟨d, hd, hartifact⟩
      · exact h.2.zeros hzero
      · exact h.2.clean d hd hartifact
    next hplain =>
      rw [not_or, not_exists] at hplain
      have hvalid : Valid x places :=
        ⟨hplaces, hclose.mp hnear, hplain.1, fun d hd hartifact => hplain.2 d ⟨hd, hartifact⟩⟩
      rw [Option.some_inj, eq_comm, and_iff_left hvalid]

theorem zeros_eq_zero_iff :
    Candidate.zeros ⟨places, roundScaled x places⟩ = 0 ↔ ¬EndsInZero x places := by
  have hone : 1 ≤ Candidate.zeros ⟨places, roundScaled x places⟩ ↔
      ['0'] <:+ fractionOf (roundedText x places) := zeros_suffix_iff.symm
  rw [EndsInZero, ← hone]
  omega

theorem Valid.zeros_le (h : Valid x places) :
    Candidate.zeros ⟨places, roundScaled x places⟩ ≤ 1 := by
  have hfew : ¬2 ≤ Candidate.zeros ⟨places, roundScaled x places⟩ := mt zeros_suffix_iff.mpr h.zeros
  omega

theorem mem_candidates_iff (hx : x.isFinite = true) :
    c ∈ (List.range 7).filterMap (candidate? x) ↔
      ∃ p, c = ⟨p, roundScaled x p⟩ ∧ Valid x p := by
  rw [List.mem_filterMap]
  constructor
  · rintro ⟨p, hp, hc⟩
    have hrange := List.mem_range.mp hp
    exact ⟨p, (candidate?_eq_some_iff hx (by omega)).mp hc⟩
  · rintro ⟨p, hc, hvalid⟩
    refine ⟨p, ?_, (candidate?_eq_some_iff hx hvalid.le_six).mpr ⟨hc, hvalid⟩⟩
    exact List.mem_range.mpr (Nat.lt_succ_of_le hvalid.le_six)

theorem zeros_le_of_mem (hx : x.isFinite = true)
    (hc : c ∈ (List.range 7).filterMap (candidate? x)) : c.zeros ≤ 1 := by
  obtain ⟨p, rfl, hvalid⟩ := (mem_candidates_iff hx).mp hc
  exact hvalid.zeros_le

/-- The candidates come with more and more decimals. -/
theorem pairwise_candidates (hx : x.isFinite = true) :
    ((List.range 7).filterMap (candidate? x)).Pairwise fun c d => c.places < d.places := by
  rw [List.pairwise_filterMap]
  refine List.pairwise_lt_range.imp_of_mem fun {p q} hp hq hlt c hc d hd => ?_
  have hp' := List.mem_range.mp hp
  have hq' := List.mem_range.mp hq
  rw [((candidate?_eq_some_iff hx (by omega)).mp hc).1,
    ((candidate?_eq_some_iff hx (by omega)).mp hd).1]
  exact hlt

end Valid

/-! ## The loop -/

/-- The best one of the candidates that have been seen: without a zero at the end if there is such a
one, and then with the fewest decimals. -/
structure Best (seen : List Candidate) (best : Candidate) : Prop where
  mem : best ∈ seen
  plain : best.zeros = 0 → ∀ c ∈ seen, c.zeros = 0 → best.places ≤ c.places
  zero : best.zeros ≠ 0 → ∀ c ∈ seen, c.zeros ≠ 0 ∧ best.places ≤ c.places

section Loop

variable {seen others : List Candidate} {best c : Candidate}

/-- After no more than one zero only two of the conditions can hold. -/
theorem beats_iff (hbest : best.zeros ≤ 1) :
    c.beats best = true ↔ c.zeros = 0 ∧ (best.zeros ≠ 0 ∨ c.places < best.places) := by
  simp only [Candidate.beats, Bool.or_eq_true, Bool.and_eq_true, beq_iff_eq, bne_iff_ne,
    decide_eq_true_iff]
  omega

theorem foldl_better_mem (others : List Candidate) (first : Candidate) :
    others.foldl better first ∈ first :: others := by
  induction others generalizing first with
  | nil => exact List.mem_singleton_self first
  | cons c others ih =>
    rw [List.foldl_cons]
    rcases List.mem_cons.mp (ih (better first c)) with hsame | hlater
    · rw [hsame, better]
      split
      · exact List.mem_cons_of_mem _ List.mem_cons_self
      · exact List.mem_cons_self
    · exact List.mem_cons_of_mem _ (List.mem_cons_of_mem _ hlater)

/-- The best one is kept when the next candidate, with more decimals than those before it, has been
seen. -/
theorem Best.step (h : Best seen best) (hfew : best.zeros ≤ 1)
    (hlater : ∀ d ∈ seen, d.places < c.places) : Best (seen ++ [c]) (better best c) := by
  have hmore := hlater best h.mem
  rw [better]
  split
  next hbeats =>
    obtain ⟨hzero, hworse⟩ := (beats_iff hfew).mp hbeats
    have hbest : best.zeros ≠ 0 := hworse.resolve_right hmore.not_gt
    refine ⟨List.mem_append_right _ (List.mem_singleton_self c), fun _ d hd hd' => ?_,
      fun hne => absurd hzero hne⟩
    rcases List.mem_append.mp hd with hd | hd
    · exact absurd hd' (h.zero hbest d hd).1
    · rw [List.mem_singleton.mp hd]
  next hbeats =>
    rw [beats_iff hfew, not_and_or] at hbeats
    refine ⟨List.mem_append_left _ h.mem, fun hzero d hd hd' => ?_, fun hne d hd => ?_⟩
    · rcases List.mem_append.mp hd with hd | hd
      · exact h.plain hzero d hd hd'
      · rw [List.mem_singleton.mp hd]
        exact hmore.le
    · rcases List.mem_append.mp hd with hd | hd
      · exact h.zero hne d hd
      · rw [List.mem_singleton.mp hd]
        exact ⟨hbeats.resolve_right fun hstays => hstays (.inl hne), hmore.le⟩

/-- The loop keeps the best of all it has seen. -/
theorem Best.foldl (h : Best seen best) (hfew : ∀ c ∈ seen ++ others, c.zeros ≤ 1)
    (hsorted : (seen ++ others).Pairwise fun c d => c.places < d.places) :
    Best (seen ++ others) (others.foldl better best) := by
  induction others generalizing seen best with
  | nil =>
    rw [List.append_nil]
    exact h
  | cons c others ih =>
    have hlater : ∀ d ∈ seen, d.places < c.places := fun d hd =>
      (List.pairwise_append.mp hsorted).2.2 d hd c List.mem_cons_self
    have hstep := h.step (hfew best (List.mem_append_left _ h.mem)) hlater
    rw [List.append_cons] at hfew hsorted ⊢
    exact ih hstep hfew hsorted

theorem best_singleton (c : Candidate) : Best [c] c := by
  refine ⟨List.mem_singleton_self c, fun _ d hd _ => ?_, fun hne d hd => ?_⟩
  · rw [List.mem_singleton.mp hd]
  · rw [List.mem_singleton.mp hd]
    exact ⟨hne, le_rfl⟩

end Loop

/-! ## What is shown -/

section Double

variable {x : Float} {first : Candidate} {others : List Candidate}

theorem best_candidates (hx : x.isFinite = true)
    (h : (List.range 7).filterMap (candidate? x) = first :: others) :
    Best (first :: others) (others.foldl better first) := by
  refine (best_singleton first).foldl ?_ ?_
  · rw [List.singleton_append, ← h]
    exact fun c => zeros_le_of_mem hx
  · rw [List.singleton_append, ← h]
    exact pairwise_candidates hx

/-- The loop ends with the rounding that is chosen. -/
theorem exists_chosen (hx : x.isFinite = true)
    (h : (List.range 7).filterMap (candidate? x) = first :: others) :
    ∃ p, Chosen x p ∧ others.foldl better first = ⟨p, roundScaled x p⟩ := by
  have hbest := best_candidates hx h
  rw [← h] at hbest
  generalize others.foldl better first = best at hbest
  obtain ⟨p, rfl, hvalid⟩ := (mem_candidates_iff hx).mp hbest.mem
  have hmem {q : ℕ} (hq : Valid x q) := (mem_candidates_iff hx).mpr ⟨q, rfl, hq⟩
  refine ⟨p, ?_, rfl⟩
  by_cases hzero : EndsInZero x p
  · have hne := mt zeros_eq_zero_iff.mp (not_not.mpr hzero)
    refine .inr ⟨fun q hq => ?_, hvalid, fun q hq => (hbest.zero hne _ (hmem hq)).2⟩
    exact not_not.mp (mt zeros_eq_zero_iff.mpr (hbest.zero hne _ (hmem hq)).1)
  · have hplain := zeros_eq_zero_iff.mpr hzero
    exact .inl ⟨⟨hvalid, hzero⟩, fun q hq =>
      hbest.plain hplain _ (hmem hq.1) (zeros_eq_zero_iff.mpr hq.2)⟩

theorem display_of_nil (hx : x.isFinite = true) (h : (List.range 7).filterMap (candidate? x) = []) :
    display x = trimFraction (fixed (roundScaled x 6) 6) := by
  simp only [display, hx, h, Bool.not_true, Bool.false_eq_true, if_false]

theorem display_of_cons (hx : x.isFinite = true)
    (h : (List.range 7).filterMap (candidate? x) = first :: others) :
    display x = dropZeroFraction (others.foldl better first).text := by
  simp only [display, hx, h, Bool.not_true, Bool.false_eq_true, if_false]

/-- A computed number is shown as the chosen rounding without a fraction of zeros only, and with up
to six decimals if no rounding is valid.  Before each further candidate the best one so far has no
more than one zero at its end. -/
theorem display_eq_chosen (hx : x.isFinite = true) :
    (∀ p, Chosen x p → display x = dropZeroFraction (roundedText x p)) ∧
    ((∃ p, Valid x p) → ∃ p, Chosen x p) ∧
    ((∀ p, ¬Valid x p) → display x = trimFraction (fixed (roundScaled x 6) 6)) ∧
    ∀ first before c after,
      (List.range 7).filterMap (candidate? x) = first :: (before ++ c :: after) →
      ¬1 < (before.foldl better first).zeros := by
  refine ⟨fun p hp => ?_, ?_, fun hnone => ?_, fun first before c after hsplit => ?_⟩
  · have hvalid : Valid x p := by
      rcases hp with hp | ⟨-, hp⟩
      · exact hp.1.1
      · exact hp.1
    have hmem := (mem_candidates_iff hx).mpr ⟨p, rfl, hvalid⟩
    obtain ⟨first, others, hlist⟩ := List.exists_cons_of_ne_nil (List.ne_nil_of_mem hmem)
    obtain ⟨q, hq, hbest⟩ := exists_chosen hx hlist
    rw [display_of_cons hx hlist, hbest, hp.unique hq]
    rfl
  · rintro ⟨p, hvalid⟩
    have hmem := (mem_candidates_iff hx).mpr ⟨p, rfl, hvalid⟩
    obtain ⟨first, others, hlist⟩ := List.exists_cons_of_ne_nil (List.ne_nil_of_mem hmem)
    obtain ⟨q, hq, -⟩ := exists_chosen hx hlist
    exact ⟨q, hq⟩
  · have hlist : (List.range 7).filterMap (candidate? x) = [] := by
      rw [List.eq_nil_iff_forall_not_mem]
      intro c hc
      obtain ⟨p, -, hvalid⟩ := (mem_candidates_iff hx).mp hc
      exact hnone p hvalid
    exact display_of_nil hx hlist
  · -- What has been seen before the candidate is the beginning of all there are.
    have hmem : before.foldl better first ∈ (List.range 7).filterMap (candidate? x) := by
      rw [hsplit, ← List.cons_append]
      exact List.mem_append_left _ (foldl_better_mem before first)
    exact not_lt.mpr (zeros_le_of_mem hx hmem)

/-- The sum of one tenth and two tenths in doubles is shown with one decimal. -/
theorem display_eq_chosen_tenths : (0.1 + 0.2 : Float).isFinite = true ∧ Chosen (0.1 + 0.2) 1 ∧
    display (0.1 + 0.2) = ['0', '.', '3'] := by
  have hfinite : (0.1 + 0.2 : Float).isFinite = true := by decide +kernel
  have htext : roundedText (0.1 + 0.2) 1 = ['0', '.', '3'] := by decide +kernel
  have hvalid : Valid (0.1 + 0.2) 1 := by
    refine ⟨by norm_num, by decide +kernel, ?_, fun d hd => ?_⟩
    · rw [htext]
      decide
    · rw [htext]
      intro hsuffix
      have hlength := hsuffix.length_le
      simp [zeros] at hlength
  have hplain : ¬EndsInZero (0.1 + 0.2) 1 := by
    rw [EndsInZero, htext]
    decide
  have hchosen : Chosen (0.1 + 0.2) 1 := by
    refine .inl ⟨⟨hvalid, hplain⟩, fun q hq => Nat.pos_of_ne_zero ?_⟩
    rintro rfl
    have hfar : ¬((0.1 + 0.2 : Float) - roundScaled (0.1 + 0.2) 0).abs < 1e-9 := by decide +kernel
    exact hfar hq.1.close
  have hdisplay := (display_eq_chosen hfinite).1 1 hchosen
  rw [htext] at hdisplay
  exact ⟨hfinite, hchosen, hdisplay⟩

end Double

end DeskCalc.Number

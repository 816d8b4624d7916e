import DeskCalc.Proofs.Measure.Quantities
import DeskCalc.Proofs.Query.BaseExpressions
import Mathlib.Data.Nat.Factorial.Basic

/-!
# Arguments that are read by their beginning

Powers and factorials take the number, or the integer, at the beginning of an argument, and what is
left behind it is not looked at.  An argument that is a number as a whole has the value that it has
as an expression; of any other expression the beginning counts and not its value.
-/

namespace DeskCalc.Expression

variable {s rest : Text}

/-! ## Digits in expressions -/

theorem isDigit_of_isLiteralChar {c : Char} (h : isLiteralChar c = true)
    (hdigit : Text.isDigit c = true) : c.isDigit = true := by
  rw [isLiteralChar, isNumberChar, Bool.or_eq_true, Bool.or_eq_true, beq_iff_eq,
    List.contains_iff_mem] at h
  rcases h with (hbasic | rfl) | hmem
  · exact hbasic
  · cases hdigit
  · have hall : ∀ c ∈ "eE+-".toList, Text.isDigit c = false :=
      List.forall_iff_forall_mem.mp (by decide)
    rw [hall c hmem] at hdigit
    cases hdigit

/-- All digits that a text derives are of the basic alphabet. -/
theorem Derives.basicDigits {table : FunctionTable} {level : Level} {e : Tree}
    (h : Derives table level e s rest)
    (hrest : ∀ c ∈ rest, Text.isDigit c = true → c.isDigit = true) :
    ∀ c ∈ s, Text.isDigit c = true → c.isDigit = true := by
  have hskip {run t : Text} (hrun : ∀ c ∈ run, Text.isDigit c = false)
      (ht : ∀ c ∈ t, Text.isDigit c = true → c.isDigit = true) :
      ∀ c ∈ run ++ t, Text.isDigit c = true → c.isDigit = true := by
    refine List.forall_mem_append.mpr ⟨fun c hc hdigit => ?_, ht⟩
    rw [hrun c hc] at hdigit
    cases hdigit
  have hsign {c : Char} (hc : Text.isDigit c = false) {t : Text}
      (ht : ∀ d ∈ t, Text.isDigit d = true → d.isDigit = true) :
      ∀ d ∈ c :: t, Text.isDigit d = true → d.isDigit = true :=
    hskip (List.forall_mem_singleton.mpr hc) ht
  induction h with
  | number hliteral =>
    obtain ⟨run, rfl, hrun⟩ := hliteral.exists_run
    exact List.forall_mem_append.mpr
      ⟨fun c hc hdigit => isDigit_of_isLiteralChar (hrun c hc) hdigit, hrest⟩
  | group _ ih => exact hsign (by decide) (ih (hsign (by decide) hrest))
  | minus _ ih => exact hsign (by decide) (ih hrest)
  | plus _ ih => exact hsign (by decide) (ih hrest)
  | call _ hname _ _ ih =>
    exact hskip (fun c hc => isDigit_of_isLetter (hname c hc))
      (hsign (by decide) (ih (hsign (by decide) hrest)))
  | operand _ ih => exact ih hrest
  | @operation o _ _ _ t _ _ _ ihleft ihright =>
    exact ihleft (hskip (stopsBefore_sign o t).2 (ihright hrest))

/-- Where no degrees are named, the digits of an expression that has a value are so too. -/
theorem basicDigits_of_evaluate {x : Float} (h : evaluate s = .ok x) (hd : 'd' ∉ s) :
    ∀ c ∈ s, Text.isDigit c = true → c.isDigit = true := by
  have hfree : DegreeFree (s.filter Session.isKept) := by
    have hrun : 'd' ∉ s.filter Session.isKept := fun hmem => hd (List.mem_of_mem_filter hmem)
    have hfree := DegreeFree.append hrun .nil rfl
    rwa [List.append_nil] at hfree
  have hprepare : prepare s = s.filter Session.isKept := replaceDegrees_eq _ hfree
  obtain ⟨u, hu, -⟩ := bind_eq_ok h
  rw [hprepare] at hu
  obtain ⟨e, ⟨hderives, -⟩, -⟩ := denotes_of_valueOf hu
  intro c hc hdigit
  refine hderives.basicDigits (by simp) c (List.mem_filter.mpr ⟨hc, ?_⟩) hdigit
  by_contra hdropped
  rw [Query.isDigit_of_dropped (Bool.eq_false_iff.mpr hdropped)] at hdigit
  cases hdigit

end DeskCalc.Expression

namespace DeskCalc.Query

open Expression (AreDigits Literal evaluate power settle)
open Number (applySign display leadingNumber? ofInt readSign)
open Session (Stands isKept)
open Text (StopsBefore stopsBefore_cons)
open Text.Shape (FitsOnly fitsOnly_atEnd fitsOnly_pure fitsOnly_run1)

/-! ## Signs -/

/-- At most one sign, and whether it is a minus. -/
inductive IsSign : Bool → Text → Prop where
  | none : IsSign false []
  | plus : IsSign false ['+']
  | minus : IsSign true ['-']

variable {a b left sign digits rest name argument t : Text} {negative : Bool} {n : ℕ} {x y p : Float}

theorem IsSign.readSign_append (h : IsSign negative sign) {c : Char} (hc : Unsigned c) (s : Text) :
    readSign (sign ++ c :: s) = (negative, c :: s) := by
  obtain ⟨hplus, hminus⟩ := hc
  cases h with
  | none => simp [readSign, hplus, hminus]
  | plus => rfl
  | minus => rfl

theorem exists_sign (s : Text) : ∃ sign, IsSign (readSign s).1 sign ∧ s = sign ++ (readSign s).2 := by
  unfold readSign
  split
  · exact ⟨_, .plus, rfl⟩
  · exact ⟨_, .minus, rfl⟩
  · exact ⟨_, .none, rfl⟩

/-- Blanks and a sign in front of a text are passed over. -/
theorem readSign_stripLeft (hleft : ∀ c ∈ left, Text.isBlank c = true) (h : IsSign negative sign)
    {c : Char} (hc : Unsigned c) (hblank : Text.isBlank c = false) (s : Text) :
    readSign (Text.stripLeft (left ++ (sign ++ c :: s))) = (negative, c :: s) := by
  have hstop : StopsBefore Text.isBlank (sign ++ c :: s) := by
    cases h with
    | none => exact stopsBefore_cons.mpr hblank
    | plus => exact stopsBefore_cons.mpr (by decide)
    | minus => exact stopsBefore_cons.mpr (by decide)
  rw [Text.stripLeft, Text.dropWhile_run hleft hstop, h.readSign_append hc]

theorem IsSign.stands (h : IsSign negative sign) {s : Text} (hs : Stands .factor s (some x) 0) :
    ∃ depth ≤ 1, Stands .factor (sign ++ s) (some (applySign negative x)) depth := by
  cases h with
  | none => exact ⟨0, by omega, hs⟩
  | plus => exact ⟨1, by omega, hs.plus⟩
  | minus => exact ⟨1, by omega, hs.minus⟩

theorem IsSign.filter_isKept (h : IsSign negative sign) : sign.filter isKept = sign := by
  cases h <;> rfl

/-! ## Numbers as arguments -/

/-- A text that is a number as a whole: a numeral with at most one sign in front of it, and blanks
around both. -/
inductive IsWholeNumber : Text → Float → Prop where
  | intro {left sign s right : Text} {negative : Bool} {n : Number.Numeral} :
    (∀ c ∈ left, Text.isBlank c = true) → IsSign negative sign → Literal n s [] →
      (∀ c ∈ right, Text.isBlank c = true) →
      IsWholeNumber (left ++ (sign ++ (s ++ right))) (applySign negative n.value)

namespace IsWholeNumber

/-- The number at the beginning of such a text is the whole of it. -/
theorem leadingNumber? (h : IsWholeNumber a p) : Number.leadingNumber? a = some p := by
  obtain @⟨left, sign, s, right, negative, n, hleft, hsign, hliteral, hright⟩ := h
  have hdropped : ∀ c ∈ right, isKept c = false := fun c hc => isKept_of_isBlank (hright c hc)
  have hread := hliteral.readNumeral?
    (stopsBefore_of_dropped hdropped fun d => isDigit_of_dropped)
    (stopsBefore_of_dropped hdropped fun d => isNumberPart_of_dropped)
  obtain ⟨c, t, rfl, hc⟩ := hliteral.head
  have hunsigned : Unsigned c := by
    constructor <;> rintro rfl <;> cases hc
  have hname : "Infinity".toList.isPrefixOf (c :: t ++ right) = false := by
    have hsplit : "Infinity".toList = 'I' :: "nfinity".toList := by decide
    have hletter : 'I' ≠ c := by
      rintro rfl
      cases hc
    rw [hsplit, List.cons_append, List.isPrefixOf_cons_cons, beq_eq_false_iff_ne.mpr hletter,
      Bool.false_and]
  have hstart := readSign_stripLeft hleft hsign hunsigned
    (isBlank_of_isLiteralChar (Expression.isLiteralChar_of_isNumberChar hc)) (t ++ right)
  rw [List.cons_append] at hread hname ⊢
  simp only [Number.leadingNumber?, hstart, hname, Bool.false_eq_true, if_false, hread,
    Option.map_some]

/-- As an expression it is that number, settled. -/
theorem evaluate (h : IsWholeNumber a p) : Expression.evaluate a = settle p := by
  obtain @⟨left, sign, s, right, negative, n, hleft, hsign, hliteral, hright⟩ := h
  have hfilter : (left ++ (sign ++ (s ++ right))).filter isKept = sign ++ s := by
    rw [List.filter_append, List.filter_append, List.filter_append, filter_isKept_blanks hleft,
      filter_isKept_blanks hright, hsign.filter_isKept,
      List.filter_eq_self.mpr (isKept_literal hliteral), List.append_nil, List.nil_append]
  obtain ⟨depth, hdepth, hstands⟩ := hsign.stands hliteral.stands
  rw [← hfilter] at hstands
  exact Session.evaluate_of_stands_kept (hstands.lower (Nat.zero_le _))
    (hdepth.trans (by decide))

end IsWholeNumber

/-! ## Integers as arguments -/

/-- Behind blanks and a sign an integer stands at the beginning of a text, a minus only in front of
zero, and `rest` is left behind its digits. -/
inductive LeadingInteger : Text → ℕ → Text → Prop where
  | intro {left sign digits rest : Text} {negative : Bool} :
    (∀ c ∈ left, Text.isBlank c = true) → IsSign negative sign → digits ≠ [] →
      (∀ c ∈ digits, Text.isDigit c = true) → StopsBefore Text.isDigit rest →
      digits.length ≤ Number.digitLimit → (negative = true → Text.digitsValue digits = 0) →
      LeadingInteger (left ++ (sign ++ (digits ++ rest))) (Text.digitsValue digits) rest

theorem factorial_eq (n : ℕ) : factorial n = n.factorial := by
  induction n with
  | zero => rfl
  | succ n ih => rw [factorial, ih, Nat.factorial_succ]

/-- What a factorial is worked out of is an integer at the beginning of the argument. -/
theorem leadingInteger_of_factorialOf (h : factorialOf argument = .found x) :
    ∃ n rest, LeadingInteger argument n rest ∧ n ≤ maxFactorial ∧ x = ofInt n.factorial := by
  obtain ⟨left, body, rfl, hleft, hstop⟩ := Text.exists_run Text.isBlank argument
  have hstrip : Text.stripLeft (left ++ body) = body := Text.dropWhile_run hleft hstop
  obtain ⟨sign, hsign, hbody⟩ := exists_sign body
  obtain ⟨digits, rest, hsplit, hdigits, hrest⟩ := Text.exists_run Text.isDigit (readSign body).2
  simp only [factorialOf, hstrip, hsplit, Text.takeWhile_run hdigits hrest] at h
  cases hempty : digits with
  | nil =>
    rw [hempty] at h
    cases h
  | cons d ds =>
    rw [hempty] at h
    obtain ⟨n, hn, h⟩ := Attempt.bind_eq_found.mp h
    obtain ⟨_, hrange, h⟩ := Attempt.bind_eq_found.mp h
    cases h
    obtain ⟨hlength, rfl⟩ := Measure.natural_eq_found.mp hn
    have hbounds := require_eq_found hrange
    simp only [Bool.and_eq_true, decide_eq_true_eq, Bool.not_eq_true', Bool.and_eq_false_iff,
      decide_eq_false_iff_not, not_not] at hbounds
    rw [← hempty] at hlength hbounds ⊢
    refine ⟨_, rest, ?_, hbounds.1, congrArg (fun k : ℕ => ofInt k) (factorial_eq _)⟩
    rw [hbody, hsplit]
    refine .intro hleft hsign (by simp [hempty]) hdigits hrest hlength fun hnegative => ?_
    exact hbounds.2.resolve_left (by simp [hnegative])

theorem LeadingInteger.factorialOf (h : LeadingInteger argument n rest) (hn : n ≤ maxFactorial) :
    Query.factorialOf argument = .found (ofInt n.factorial) := by
  obtain @⟨left, sign, digits, _, negative, hleft, hsign, hne, hdigits, hrest, hlength, hzero⟩ := h
  obtain ⟨d, ds, rfl⟩ := List.exists_cons_of_ne_nil hne
  have hd := hdigits d List.mem_cons_self
  have hstart := readSign_stripLeft hleft hsign (unsigned_of_isDigit hd) (Text.isBlank_of_isDigit hd)
    (ds ++ rest)
  have htake := Text.takeWhile_run hdigits hrest
  have hnatural := Measure.natural_eq_found.mpr ⟨hlength, rfl⟩
  have hrange : (decide (Text.digitsValue (d :: ds) ≤ maxFactorial) &&
      !(negative && decide (Text.digitsValue (d :: ds) ≠ 0))) = true := by
    cases negative with
    | false => simp [hn]
    | true => simp [hzero rfl]
  rw [List.cons_append] at htake ⊢
  simp only [Query.factorialOf, hstart, htake, hnatural, Attempt.found_bind, hrange, Attempt.require,
    factorial_eq]
  rfl

theorem factorialOf_eq_found : factorialOf argument = .found x ↔
    ∃ n rest, LeadingInteger argument n rest ∧ n ≤ maxFactorial ∧ x = ofInt n.factorial := by
  refine ⟨leadingInteger_of_factorialOf, ?_⟩
  rintro ⟨n, rest, h, hn, rfl⟩
  exact h.factorialOf hn

/-- Natural numbers up to this one are settled to themselves. -/
theorem settle_ofInt (hn : n ≤ 36893488) : settle (ofInt n) = .ok (ofInt n) := by
  rcases Nat.eq_zero_or_pos n with rfl | hpos
  · rfl
  · obtain ⟨hfinite, hvalue⟩ := @Number.representable_int n (by omega)
    rw [← Number.ofInt_eq] at hfinite hvalue
    obtain ⟨y, hsettle, hfinite', hkept, -⟩ := Expression.settle_int hfinite hvalue
    have hy : Number.exactValue y = (n : ℤ) :=
      hkept.mpr fun _ => Expression.survivesScaling_of_le hfinite hvalue hn
    have hne : Number.exactValue y ≠ 0 := by
      rw [hy, Int.cast_natCast]
      exact Nat.cast_ne_zero.mpr hpos.ne'
    rw [hsettle, ← Number.nearestTo_exactValue hfinite' hne, hy, Number.ofInt_eq]

/-- Where nothing but blanks is left behind the integer, it is the value of the argument. -/
theorem LeadingInteger.value_eq (h : LeadingInteger a n rest) (hn : n ≤ maxFactorial)
    (hrest : ∀ c ∈ rest, Text.isBlank c = true) (ha : evaluate a = .ok x) : x = ofInt n := by
  obtain @⟨left, sign, digits, rest, negative, hleft, hsign, hne, hdigits, -, -, hzero⟩ := h
  have hnames : 'd' ∉ left ++ (sign ++ (digits ++ rest)) := by
    simp only [List.mem_append, not_or]
    refine ⟨fun hd => ?_, by cases hsign <;> decide, fun hd => ?_, fun hd => ?_⟩
    · cases hleft _ hd
    · cases hdigits _ hd
    · cases hrest _ hd
  have hbasic : AreDigits digits := fun c hc =>
    Expression.basicDigits_of_evaluate ha hnames c (by simp [hc]) (hdigits c hc)
  have hwhole : IsWholeNumber (left ++ (sign ++ (digits ++ rest)))
      (applySign negative (ofInt (Text.digitsValue digits))) := by
    rw [← value_digits]
    exact .intro hleft hsign (Expression.Mantissa.whole hne hbasic).literal hrest
  have hsettle : settle (applySign negative (ofInt (Text.digitsValue digits))) =
      .ok (ofInt (Text.digitsValue digits)) := by
    cases negative with
    | false => exact settle_ofInt (hn.trans (by decide))
    | true =>
      rw [hzero rfl]
      rfl
  rw [hwhole.evaluate, hsettle] at ha
  cases ha
  rfl

/-! ## Calls -/

/-- The call of a function. -/
def callText (name argument : Text) : Text :=
  name ++ '(' :: (argument ++ [')'])

theorem functionCall_read? (hname : name ≠ []) (hletters : ∀ c ∈ name, Text.isLetterAnyCase c = true)
    (hne : argument ≠ []) (hinside : ')' ∉ argument) :
    functionCall.read? (callText name argument) = some (name, argument) := by
  have hlone : FitsOnly loneGroup ('(' :: (argument ++ [')'])) argument [] :=
    (fitsOnly_group hne hinside []).bind ((fitsOnly_atEnd (.inl rfl)).bind (fitsOnly_pure _ _))
  have hcall : FitsOnly functionCall (callText name argument) (name, argument) [] :=
    (fitsOnly_run1 hname hletters (stopsBefore_cons.mpr (by decide))).bind
      (hlone.bind (fitsOnly_pure _ _))
  exact hcall.read?

/-- A call that is read is answered with the function's value, if this is a number. -/
theorem answerCall_callText (hname : name ≠ [])
    (hletters : ∀ c ∈ name, Text.isLetterAnyCase c = true) (hne : argument ≠ [])
    (hinside : ')' ∉ argument) : answerCall (callText name argument) = .answer t ↔
      ∃ x, callValue (Text.lower name) argument = .found x ∧ x.isNaN = false ∧ t = display x := by
  simp only [answerCall, functionCall_read? hname hletters hne hinside, Outcome.ofAttempt_eq_answer,
    Attempt.bind_eq_found, Attempt.pure_eq_found, Attempt.found.injEq]
  constructor
  · rintro ⟨x, hx, _, hnumber, rfl⟩
    exact ⟨x, hx, by simpa using require_eq_found hnumber, rfl⟩
  · rintro ⟨x, hx, hnumber, rfl⟩
    have hcheck : Attempt.require (!x.isNaN) = .found () := by
      rw [hnumber]
      rfl
    exact ⟨x, hx, (), hcheck, rfl⟩

theorem splitPair?_append (ha : ',' ∉ a) (hb : ',' ∉ b) : splitPair? (a ++ ',' :: b) = some (a, b) := by
  have hrun : ∀ c ∈ a, decide (c ≠ ',') = true := by
    intro c hc
    refine decide_eq_true ?_
    rintro rfl
    exact ha hc
  have hstop : StopsBefore (fun c => decide (c ≠ ',')) (',' :: b) := stopsBefore_cons.mpr rfl
  have hother : b.contains ',' = false := by simpa using hb
  simp only [splitPair?, Text.dropWhile_run hrun hstop, Text.takeWhile_run hrun hstop, hother,
    Bool.false_eq_true, if_false]

theorem powerOf?_eq_some (ha : ',' ∉ a) (hb : ',' ∉ b) : powerOf? (a ++ ',' :: b) = some x ↔
    ∃ p q, leadingNumber? a = some p ∧ leadingNumber? b = some q ∧ x = power p q := by
  simp only [powerOf?, splitPair?_append ha hb, Option.bind_eq_bind, Option.bind_some,
    Option.bind_eq_some_iff, Option.pure_def, Option.some.injEq]
  constructor
  · rintro ⟨p, hp, q, hq, rfl⟩
    exact ⟨p, q, hp, hq, rfl⟩
  · rintro ⟨p, q, hp, hq, rfl⟩
    exact ⟨p, hp, q, hq, rfl⟩

theorem answerCall_pow (hargument : ∀ u ∈ [a, b], ',' ∉ u ∧ ')' ∉ u) :
    answerCall (callText "pow".toList (a ++ ',' :: b)) = .answer t ↔
      ∃ p q, leadingNumber? a = some p ∧ leadingNumber? b = some q ∧ (power p q).isNaN = false ∧
        t = display (power p q) := by
  obtain ⟨ha, haclosing⟩ := hargument a (by simp)
  obtain ⟨hb, hbclosing⟩ := hargument b (by simp)
  have hclosing : ')' ∉ a ++ ',' :: b := by
    simp only [List.mem_append, List.mem_cons, not_or]
    exact ⟨haclosing, by decide, hbclosing⟩
  have hvalue : callValue (Text.lower "pow".toList) (a ++ ',' :: b) =
      Attempt.ofOption (powerOf? (a ++ ',' :: b)) := rfl
  rw [answerCall_callText (by decide) (List.all_eq_true.mp (by decide)) (by simp) hclosing, hvalue]
  simp only [Attempt.ofOption_eq_found, powerOf?_eq_some ha hb]
  constructor
  · rintro ⟨x, ⟨p, q, hp, hq, rfl⟩, hnumber, rfl⟩
    exact ⟨p, q, hp, hq, hnumber, rfl⟩
  · rintro ⟨p, q, hp, hq, hnumber, rfl⟩
    exact ⟨_, ⟨p, q, hp, hq, rfl⟩, hnumber, rfl⟩

theorem isNaN_factorial (hn : n ≤ maxFactorial) : (ofInt n.factorial).isNaN = false := by
  have hlargest : maxFactorial.factorial < (2 ^ 54 - 1) * Number.twoTo 970 := by
    decide +kernel
  apply Number.isNaN_of_isFinite
  apply Number.isFinite_ofInt
  rw [Int.natAbs_natCast]
  exact (Nat.factorial_le hn).trans_lt hlargest

theorem answerCall_factorial (hname : name ∈ ["factorial".toList, "fact".toList]) (hne : a ≠ [])
    (hclosing : ')' ∉ a) : answerCall (callText name a) = .answer t ↔
      ∃ n rest, LeadingInteger a n rest ∧ n ≤ maxFactorial ∧
        t = display (ofInt n.factorial) := by
  have hcall : name ≠ [] ∧ (∀ c ∈ name, Text.isLetterAnyCase c = true) ∧
      callValue (Text.lower name) a = factorialOf a := by
    rcases List.mem_pair.mp hname with rfl | rfl
    · exact ⟨by decide, List.all_eq_true.mp (by decide), rfl⟩
    · exact ⟨by decide, List.all_eq_true.mp (by decide), rfl⟩
  obtain ⟨hne', hletters, hvalue⟩ := hcall
  rw [answerCall_callText hne' hletters hne hclosing, hvalue]
  simp only [factorialOf_eq_found]
  constructor
  · rintro ⟨x, ⟨n, rest, hinteger, hn, rfl⟩, -, rfl⟩
    exact ⟨n, rest, hinteger, hn, rfl⟩
  · rintro ⟨n, rest, hinteger, hn, rfl⟩
    exact ⟨_, ⟨n, rest, hinteger, hn, rfl⟩, isNaN_factorial hn, rfl⟩

/-- The arguments of powers and factorials, whatever they are as expressions, are the numbers and
integers at their beginning.  Where such a number is the whole argument, it is settled to the value
of the argument, and where such an integer is, it is this value. -/
theorem calls_by_leading_numbers (ha : evaluate a = .ok x) (hb : evaluate b = .ok y)
    (hargument : ∀ u ∈ [a, b], ',' ∉ u ∧ ')' ∉ u) :
    (∀ t, answerCall (callText "pow".toList (a ++ ',' :: b)) = .answer t ↔
      ∃ p q, leadingNumber? a = some p ∧ leadingNumber? b = some q ∧
        (power p q).isNaN = false ∧ t = display (power p q)) ∧
    (∀ p q, IsWholeNumber a p → IsWholeNumber b q →
      settle p = .ok x ∧ settle q = .ok y ∧
        ∀ t, answerCall (callText "pow".toList (a ++ ',' :: b)) = .answer t ↔
          (power p q).isNaN = false ∧ t = display (power p q)) ∧
    ∀ name ∈ ["factorial".toList, "fact".toList],
      (∀ t, answerCall (callText name a) = .answer t ↔
        ∃ n rest, LeadingInteger a n rest ∧ n ≤ maxFactorial ∧
          t = display (ofInt n.factorial)) ∧
      ∀ n rest, LeadingInteger a n rest → n ≤ maxFactorial →
        (∀ c ∈ rest, Text.isBlank c = true) →
        x = ofInt n ∧ answerCall (callText name a) = .answer (display (ofInt n.factorial)) := by
  have hne : a ≠ [] := by
    rintro rfl
    cases ha
  refine ⟨fun t => answerCall_pow hargument, fun p q hp hq => ?_, fun name hname => ?_⟩
  · refine ⟨hp.evaluate ▸ ha, hq.evaluate ▸ hb, fun t => ?_⟩
    rw [answerCall_pow hargument, hp.leadingNumber?, hq.leadingNumber?]
    simp
  · have hanswer (t : Text) := @answerCall_factorial a name t hname hne (hargument a (by simp)).2
    refine ⟨hanswer, fun n rest hinteger hn hrest => ⟨hinteger.value_eq hn hrest ha, ?_⟩⟩
    exact (hanswer _).mpr ⟨n, rest, hinteger, hn, rfl⟩

theorem calls_by_leading_numbers_five :
    evaluate " 5 ".toList = .ok 5 ∧ evaluate "-2".toList = .ok (-2) ∧
      (∀ t, answerCall "pow( 5 ,-2)".toList = .answer t ↔
        (power 5 (-2)).isNaN = false ∧ t = display (power 5 (-2))) ∧
      answerCall "fact( 5 )".toList = .answer "120".toList := by
  have hfive : evaluate " 5 ".toList = .ok 5 := rfl
  have htwo : evaluate "-2".toList = .ok (-2) := rfl
  have hcalls := calls_by_leading_numbers hfive htwo (by decide)
  have hleft : ∀ c ∈ [' '], Text.isBlank c = true := List.all_eq_true.mp (by decide)
  have hfiveWhole : IsWholeNumber " 5 ".toList 5 := by
    have h := @IsWholeNumber.intro [' '] [] ['5'] [' '] false ⟨['5'], [], 0⟩ hleft .none
      (Expression.Mantissa.whole (by decide) (List.all_eq_true.mp (by decide))).literal hleft
    have hvalue : applySign false (Number.Numeral.value ⟨['5'], [], 0⟩) = 5 := rfl
    rwa [hvalue] at h
  have htwoWhole : IsWholeNumber "-2".toList (-2) := by
    have h := @IsWholeNumber.intro [] ['-'] ['2'] [] true ⟨['2'], [], 0⟩ (by simp) .minus
      (Expression.Mantissa.whole (by decide) (List.all_eq_true.mp (by decide))).literal (by simp)
    have hvalue : applySign true (Number.Numeral.value ⟨['2'], [], 0⟩) = -2 := rfl
    rwa [hvalue] at h
  have hinteger : LeadingInteger " 5 ".toList 5 [' '] :=
    @LeadingInteger.intro [' '] [] ['5'] [' '] false hleft .none (by decide)
      (List.all_eq_true.mp (by decide)) (stopsBefore_cons.mpr (by decide)) (by decide) nofun
  refine ⟨hfive, htwo, (hcalls.2.1 5 (-2) hfiveWhole htwoWhole).2.2, ?_⟩
  have hfact := (hcalls.2.2 "fact".toList (by decide)).2 5 [' '] hinteger (by decide) hleft
  have hshown : display (ofInt (Nat.factorial 5)) = "120".toList := by decide +kernel
  rw [hshown] at hfact
  exact hfact.2

/-- Of a sum only the first number counts. -/
theorem sum_cut_short : evaluate "2+3".toList = .ok 5 ∧
    display (ofInt (Nat.factorial 5)) = "120".toList ∧
    answerCall "factorial(2+3)".toList = .answer "2".toList ∧
    evaluate "5.9".toList = .ok 5.9 ∧ answerCall "fact(5.9)".toList = .answer "120".toList := by
  decide +kernel

end DeskCalc.Query

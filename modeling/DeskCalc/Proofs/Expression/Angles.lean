import DeskCalc.Proofs.Expression.Groups
import DeskCalc.Proofs.Expression.Messages
import DeskCalc.Proofs.Query.BaseExpressions

/-!
# Numbers of degrees

The word for degrees is looked for behind digits, perhaps with a point and further digits.  The
numbers of expressions are more: they may begin or end with a point and have an exponent.  A number
with the word behind it is therefore the product of the number and a degree in radians only if it is
such a decimal; any other number has the word, or a group in the place of its last digits, behind it
as something that continues no number.
-/

namespace DeskCalc.Expression

open Json (isNumberPart)
open Session (Stands isKept)
open Text (StopsBefore takeWhile_run dropWhile_run)

variable {s run rest word literal : Text} {c : Char} {x : Float}

/-! ## Replacing degrees -/

theorem length_fractionAndDegrees? {found : Text × Text} (h : fractionAndDegrees? s = some found) :
    found.2.length ≤ s.length := by
  obtain ⟨-, word, -, hafter⟩ := of_fractionAndDegrees? h
  have hlength := congrArg List.length hafter
  rw [List.length_append, List.length_append] at hlength
  omega

/-- Fuel for every character is enough. -/
theorem replaceDegrees_fuel {m n : Nat} (hm : s.length ≤ m) (hn : s.length ≤ n) :
    replaceDegrees m s = replaceDegrees n s := by
  induction m generalizing n s with
  | zero =>
    obtain rfl := List.length_eq_zero_iff.mp (Nat.le_zero.mp hm)
    cases n <;> rfl
  | succ m ih =>
    cases s with
    | nil => cases n <;> rfl
    | cons c s =>
      obtain ⟨n, rfl⟩ : ∃ k, n = k + 1 := ⟨n - 1, by rw [List.length_cons] at hn; omega⟩
      rw [List.length_cons] at hm hn
      have hdrop : (s.dropWhile Text.isDigit).length ≤ s.length :=
        (List.dropWhile_sublist _).length_le
      rw [replaceDegrees, replaceDegrees]
      split
      · cases hfound : fractionAndDegrees? (s.dropWhile Text.isDigit) with
        | none => simp only [hfound, @ih (s.dropWhile Text.isDigit) n (by omega) (by omega)]
        | some found =>
          have hlength := length_fractionAndDegrees? hfound
          simp only [hfound, @ih found.2 n (by omega) (by omega)]
      · rw [@ih s n (by omega) (by omega)]

/-- The text with every number of degrees replaced. -/
def withDegrees (s : Text) : Text :=
  replaceDegrees s.length s

theorem withDegrees_cons (hc : Text.isDigit c = false) (s : Text) :
    withDegrees (c :: s) = c :: withDegrees s := by
  rw [withDegrees, List.length_cons, replaceDegrees, hc, if_neg Bool.false_ne_true]
  rfl

theorem withDegrees_run (hne : run ≠ []) (hrun : ∀ c ∈ run, Text.isDigit c = true)
    (hrest : StopsBefore Text.isDigit rest) :
    withDegrees (run ++ rest) =
      match fractionAndDegrees? rest with
      | some (fraction, after) =>
        '(' :: run ++ fraction ++ '*' :: degreeText ++ ')' :: withDegrees after
      | none => run ++ withDegrees rest := by
  obtain ⟨c, digits, rfl⟩ := List.exists_cons_of_ne_nil hne
  obtain ⟨hc, hdigits⟩ := List.forall_mem_cons.mp hrun
  have hfuel {t : Text} (ht : t.length ≤ rest.length) :
      replaceDegrees (digits ++ rest).length t = withDegrees t :=
    replaceDegrees_fuel (by rw [List.length_append]; omega) le_rfl
  rw [List.cons_append, withDegrees, List.length_cons, replaceDegrees, if_pos hc,
    takeWhile_run hdigits hrest, dropWhile_run hdigits hrest]
  cases hfound : fractionAndDegrees? rest with
  | none => simp only [hfound, hfuel le_rfl]
  | some found => simp only [hfound, hfuel (length_fractionAndDegrees? hfound)]

/-- Digits that no degrees follow are kept. -/
theorem withDegrees_digits (hrun : ∀ c ∈ run, Text.isDigit c = true)
    (hrest : StopsBefore Text.isDigit rest) (hnone : fractionAndDegrees? rest = none) :
    withDegrees (run ++ rest) = run ++ withDegrees rest := by
  by_cases hne : run = []
  · rw [hne, List.nil_append, List.nil_append]
  · rw [withDegrees_run hne hrun hrest, hnone]

/-! ## Decimals -/

/-- Digits, perhaps with a point and further digits. -/
inductive IsDecimal : Text → Prop where
  | whole {digits : Text} : digits ≠ [] → AreDigits digits → IsDecimal digits
  | pointed {digits fraction : Text} : digits ≠ [] → fraction ≠ [] → AreDigits digits →
    AreDigits fraction → IsDecimal (digits ++ '.' :: fraction)

theorem afterDegrees?_word (hword : word ∈ degreeWords) : afterDegrees? word = some [] := by
  simp only [degreeWords, List.mem_cons, List.not_mem_nil, or_false] at hword
  rcases hword with rfl | rfl <;> decide

theorem stopsBefore_word (hword : word ∈ degreeWords) : StopsBefore Text.isDigit word := by
  simp only [degreeWords, List.mem_cons, List.not_mem_nil, or_false] at hword
  rcases hword with rfl | rfl <;> exact Text.stopsBefore_cons.mpr (by decide)

/-- What is put in the place of a number of degrees. -/
def radians (literal : Text) : Text :=
  '(' :: (literal ++ '*' :: (degreeText ++ [')']))

theorem withDegrees_whole {digits : Text} (hne : digits ≠ []) (hdigits : AreDigits digits)
    (hword : word ∈ degreeWords) : withDegrees (digits ++ word) = radians digits := by
  have hfound : fractionAndDegrees? word = some ([], []) := by
    simp only [fractionAndDegrees?, afterDegrees?_word hword]
  rw [withDegrees_run hne hdigits.textual (stopsBefore_word hword), hfound]
  simp [radians, withDegrees, replaceDegrees]

theorem withDegrees_pointed {digits fraction : Text} (hne : digits ≠ []) (hne' : fraction ≠ [])
    (hdigits : AreDigits digits) (hfraction : AreDigits fraction) (hword : word ∈ degreeWords) :
    withDegrees (digits ++ '.' :: fraction ++ word) = radians (digits ++ '.' :: fraction) := by
  have hstops := stopsBefore_word hword
  have hfound : fractionAndDegrees? ('.' :: (fraction ++ word)) = some ('.' :: fraction, []) := by
    have hnone : afterDegrees? ('.' :: (fraction ++ word)) = none := afterDegrees?_eq_none rfl
    simp only [fractionAndDegrees?, hnone, takeWhile_run hfraction.textual hstops,
      dropWhile_run hfraction.textual hstops, List.isEmpty_eq_false_iff.mpr hne',
      Bool.false_eq_true, if_false, afterDegrees?_word hword]
    rfl
  rw [List.append_assoc, List.cons_append, withDegrees_run hne hdigits.textual
    (Text.stopsBefore_cons.mpr (by decide)), hfound]
  simp [radians, withDegrees, replaceDegrees]

theorem IsDecimal.withDegrees (h : IsDecimal literal) (hword : word ∈ degreeWords) :
    Expression.withDegrees (literal ++ word) = radians literal := by
  cases h with
  | whole hne hdigits => exact withDegrees_whole hne hdigits hword
  | pointed hne hne' hdigits hfraction => exact withDegrees_pointed hne hne' hdigits hfraction hword

/-! ## Products with a degree -/

theorem isKept_degreeText : ∀ c ∈ degreeText, isKept c = true :=
  fun c hc => Session.isKept_of_isTextChar ((Number.isNumberText_numberText _).chars c hc)

theorem stands_degree : Stands .factor degreeText (some (Constant.pi / 180)) 0 := by
  have hplain : plainZero (Constant.pi / 180) = Constant.pi / 180 := rfl
  have hdepth : Session.Term.signDepth (Constant.pi / 180) = 0 := rfl
  have hstands := Session.stands_numberText (x := Constant.pi / 180) rfl
  rwa [hplain, hdepth] at hstands

section Products

variable {n : Number.Numeral} (h : Literal n literal [])

include h

theorem stands_radians : Stands .factor (radians literal)
    (some (n.value * (Constant.pi / 180))) 4 := by
  have hproduct : Stands .product (literal ++ (['*'] ++ degreeText))
      (some (n.value * (Constant.pi / 180))) 0 :=
    Stands.operation (o := .times) (h.stands.lower (by decide)) (stands_degree.lower (by decide))
  have hsum : Stands .sum _ _ 0 := hproduct.lower (by decide)
  have hgroup := hsum.group
  rwa [List.cons_append, List.append_assoc] at hgroup

/-- The product of a number in parentheses and a degree. -/
theorem stands_product : Stands .product ('(' :: literal ++ ')' :: '*' :: degreeText)
    (some (n.value * (Constant.pi / 180))) 4 := by
  have hsum : Stands .sum _ _ 0 := h.stands.lower (by decide)
  have hgroup := hsum.group
  have hproduct := Stands.operation (o := .times) (hgroup.lower (by decide))
    (stands_degree.lower (by decide))
  rwa [List.append_assoc] at hproduct

theorem evaluate_product : evaluate ('(' :: literal ++ ')' :: '*' :: degreeText) =
    settle (n.value * (Constant.pi / 180)) := by
  refine Session.evaluate_of_stands ((stands_product h).lower (by decide)) (by decide) ?_
  refine List.forall_mem_append.mpr ⟨?_, ?_⟩
  · exact List.forall_mem_cons.mpr ⟨by decide, Query.isKept_literal h⟩
  · exact List.forall_mem_cons.mpr ⟨by decide,
      List.forall_mem_cons.mpr ⟨by decide, isKept_degreeText⟩⟩

/-- What is read of a number with the word for degrees behind it. -/
theorem evaluate_degrees (hword : word ∈ degreeWords) :
    evaluate (literal ++ word) = valueOf standardTable (withDegrees (literal ++ word)) >>= settle := by
  have hletters : ∀ c ∈ word, isKept c = true := by
    simp only [degreeWords, List.mem_cons, List.not_mem_nil, or_false] at hword
    rcases hword with rfl | rfl <;> exact List.all_eq_true.mp (by decide)
  rw [evaluate, evaluateWith,
    Session.prepare_eq (List.forall_mem_append.mpr ⟨Query.isKept_literal h, hletters⟩)]
  rfl

theorem evaluate_decimal_degrees (hdecimal : IsDecimal literal) (hword : word ∈ degreeWords) :
    evaluate (literal ++ word) = settle (n.value * (Constant.pi / 180)) := by
  have hvalue := (Session.valueOf_of_stands ((stands_radians h).lower (by decide)) (by decide)).2
  rw [evaluate_degrees h hword, hdecimal.withDegrees hword, hvalue]
  rfl

end Products

/-! ## Other numbers -/

/-- Behind digits and points stands something that neither is a part of the number nor goes on with
an operator. -/
def BreaksOff (s : Text) : Prop :=
  ∃ body c rest, s = body ++ c :: rest ∧ body ≠ [] ∧ (∀ d ∈ body, isNumberChar d = true) ∧
    isNumberChar c = false ∧ mayFollow c = false ∧ exponentText (c :: rest) = []

/-- Such a text is no expression. -/
theorem BreaksOff.formal (h : BreaksOff s) (table : FunctionTable) :
    ∃ err : Error, err.isFormal = true ∧ valueOf table s = .error err := by
  obtain ⟨body, c, rest, rfl, hne, hbody, hnumber, hfollow, hexponent⟩ := h
  have hstops : StopsBefore isNumberChar (c :: rest) := Text.stopsBefore_cons.mpr hnumber
  have hnone : ∀ power written after, Exponent power written → c :: rest ≠ written ++ after := by
    intro power written after hwritten hsplit
    rw [hsplit] at hexponent
    exact exponentText_ne_nil hwritten hexponent
  have hnext : ¬∃ d ∈ (c :: rest).head?, mayFollow d = true := by
    rintro ⟨d, hd, hmay⟩
    cases hd
    rw [hfollow] at hmay
    cases hmay
  refine (valueOf_spec table _).2.2.mpr ⟨?_, ?_⟩
  · rintro ⟨e, hderives, -⟩
    rcases hderives.behind_number hne hbody hstops hnone with hrest | hmay
    · cases hrest
    · exact hnext hmay
  · intro hmeets
    exact hnext (hmeets.behind_number hne hbody hstops hnone)

theorem withDegrees_word (hword : word ∈ degreeWords) : withDegrees word = word := by
  simp only [degreeWords, List.mem_cons, List.not_mem_nil, or_false] at hword
  rcases hword with rfl | rfl <;> decide

theorem fractionAndDegrees?_mark (hc : c = 'e' ∨ c = 'E') (s : Text) :
    fractionAndDegrees? (c :: s) = none := by
  have hnone : afterDegrees? (c :: s) = none := by
    refine afterDegrees?_eq_none ?_
    rcases hc with rfl | rfl <;> rfl
  simp only [fractionAndDegrees?, hnone]
  rcases hc with rfl | rfl <;> rfl

/-- In front of an exponent no degrees are looked for. -/
theorem Mantissa.withDegrees {whole fraction body : Text} (h : Mantissa whole fraction body)
    (hc : c = 'e' ∨ c = 'E') (s : Text) :
    Expression.withDegrees (body ++ c :: s) = body ++ Expression.withDegrees (c :: s) := by
  have hmark : StopsBefore Text.isDigit (c :: s) := by
    rcases hc with rfl | rfl <;> rfl
  have hnone := fractionAndDegrees?_mark hc s
  cases h with
  | whole _ hwhole => exact withDegrees_digits hwhole.textual hmark hnone
  | pointed _ hwhole hfraction =>
    -- Behind the point the digits are followed by the exponent as well.
    have hpoint : fractionAndDegrees? ('.' :: (fraction ++ c :: s)) = none := by
      have hafter : afterDegrees? (c :: s) = none :=
        afterDegrees?_eq_none (by rcases hc with rfl | rfl <;> rfl)
      simp only [fractionAndDegrees?, afterDegrees?_eq_none (s := '.' :: (fraction ++ c :: s)) rfl,
        takeWhile_run hfraction.textual hmark, dropWhile_run hfraction.textual hmark, hafter,
        Option.map_none, ite_self]
    rw [List.append_assoc, List.cons_append, withDegrees_digits hwhole.textual
      (Text.stopsBefore_cons.mpr (by decide)) hpoint, withDegrees_cons (by decide),
      withDegrees_digits hfraction.textual hmark hnone, List.append_assoc, List.cons_append]

theorem breaksOff_leading {fraction : Text} (hne : fraction ≠ []) (hfraction : AreDigits fraction)
    (hword : word ∈ degreeWords) : BreaksOff (withDegrees ('.' :: fraction ++ word)) := by
  refine ⟨['.'], '(', fraction ++ '*' :: (degreeText ++ [')']), ?_, List.cons_ne_nil _ _,
    List.all_eq_true.mp (by decide), rfl, by decide, rfl⟩
  rw [List.cons_append, withDegrees_cons (by decide), withDegrees_whole hne hfraction hword]
  rfl

theorem breaksOff_trailing {digits : Text} (hdigits : AreDigits digits)
    (hword : word ∈ degreeWords) : BreaksOff (withDegrees (digits ++ ['.'] ++ word)) := by
  have hstops := stopsBefore_word hword
  have hpoint : fractionAndDegrees? ('.' :: word) = none := by
    simp only [fractionAndDegrees?, afterDegrees?_eq_none (s := '.' :: word) rfl,
      Text.takeWhile_of_stops hstops, List.isEmpty_nil, if_true]
  have hkept : withDegrees (digits ++ ['.'] ++ word) = digits ++ ['.'] ++ word := by
    rw [List.append_assoc, List.singleton_append, withDegrees_digits hdigits.textual
      (Text.stopsBefore_cons.mpr (by decide)) hpoint, withDegrees_cons (by decide),
      withDegrees_word hword]
  have hletter : ∃ rest, word = 'd' :: rest := by
    simp only [degreeWords, List.mem_cons, List.not_mem_nil, or_false] at hword
    rcases hword with rfl | rfl <;> exact ⟨_, rfl⟩
  obtain ⟨rest, rfl⟩ := hletter
  refine ⟨digits ++ ['.'], 'd', rest, hkept, by simp, ?_, rfl, by decide, rfl⟩
  exact List.forall_mem_append.mpr ⟨fun d hd => isNumberChar_of_isDigit (hdigits d hd),
    List.all_eq_true.mp (by decide)⟩

theorem Mantissa.breaksOff {whole fraction body tail : Text} (h : Mantissa whole fraction body)
    (hc : c = 'e' ∨ c = 'E') (hnone : exponentText (c :: Expression.withDegrees tail) = []) :
    BreaksOff (Expression.withDegrees (body ++ c :: tail)) := by
  have hmark : Text.isDigit c = false ∧ Expression.isNumberChar c = false ∧
      mayFollow c = false := by
    rcases hc with rfl | rfl <;> decide
  refine ⟨body, c, Expression.withDegrees tail, ?_, h.ne_nil, h.isNumberChar, hmark.2.1, hmark.2.2,
    hnone⟩
  rw [h.withDegrees hc, withDegrees_cons hmark.1]

/-- The digits of the exponent are taken for the number of degrees. -/
theorem breaksOff_scientific {whole fraction body written : Text} {power : Int}
    (h : Mantissa whole fraction body) (hwritten : Exponent power written)
    (hword : word ∈ degreeWords) : BreaksOff (withDegrees (body ++ written ++ word)) := by
  cases hwritten with
  | bare hc hne hdigits =>
    rw [List.append_assoc, List.cons_append]
    refine h.breaksOff hc ?_
    rw [withDegrees_whole hne hdigits hword, radians,
      exponentText_unsigned hc (Text.stopsBefore_cons.mpr (by decide))]
    rfl
  | plus hc hne hdigits =>
    rw [List.append_assoc, List.cons_append, List.cons_append]
    refine h.breaksOff hc ?_
    rw [withDegrees_cons (by decide), withDegrees_whole hne hdigits hword,
      exponentText_signed hc rfl]
    rfl
  | minus hc hne hdigits =>
    rw [List.append_assoc, List.cons_append, List.cons_append]
    refine h.breaksOff hc ?_
    rw [withDegrees_cons (by decide), withDegrees_whole hne hdigits hword,
      exponentText_signed hc rfl]
    rfl

/-- Of the mantissas with a point only those with digits on both sides of it are decimals. -/
theorem AreDigits.breaksOff {whole fraction : Text} (hwhole : AreDigits whole)
    (hfraction : AreDigits fraction) (hne : whole ≠ [] ∨ fraction ≠ [])
    (hdecimal : ¬IsDecimal (whole ++ '.' :: fraction)) (hword : word ∈ degreeWords) :
    BreaksOff (withDegrees (whole ++ '.' :: fraction ++ word)) := by
  by_cases hw : whole = []
  · subst hw
    exact breaksOff_leading (hne.resolve_left (· rfl)) hfraction hword
  · by_cases hf : fraction = []
    · subst hf
      exact breaksOff_trailing hwhole hword
    · exact absurd (.pointed hw hf hwhole hfraction) hdecimal

/-- A number that is no decimal breaks off in front of the word for degrees, or in front of what is
put in the place of its last digits. -/
theorem Literal.breaksOff {n : Number.Numeral} (h : Literal n literal [])
    (hdecimal : ¬IsDecimal literal) (hword : word ∈ degreeWords) :
    BreaksOff (withDegrees (literal ++ word)) := by
  generalize hend : ([] : Text) = tail at h
  cases h with
  | plain hbody _ _ =>
    subst hend
    rw [List.append_nil] at hdecimal ⊢
    cases hbody with
    | whole hne hwhole => exact absurd (.whole hne hwhole) hdecimal
    | pointed hne hwhole hfraction => exact hwhole.breaksOff hfraction hne hdecimal hword
  | scientific hbody hwritten _ =>
    subst hend
    rw [List.append_nil]
    exact breaksOff_scientific hbody hwritten hword

/-! ## The result -/

theorem isFormal_of_settle {err : Error} (h : settle x = .error err) : err.isFormal = false := by
  rw [settle_eq_error h]
  rfl

/-- A number with the word for degrees behind it is read like the product of the number and a degree
exactly if it is a decimal.  Any other number is no expression with the word behind it. -/
theorem evaluate_degrees_iff (h : readNumber literal = .ok (x, [])) (hword : word ∈ degreeWords) :
    evaluate ('(' :: literal ++ ')' :: '*' :: degreeText) = settle (x * (Constant.pi / 180)) ∧
      (evaluate (literal ++ word) = evaluate ('(' :: literal ++ ')' :: '*' :: degreeText) ↔
        IsDecimal literal) ∧
      (¬IsDecimal literal →
        ∃ err : Error, err.isFormal = true ∧ evaluate (literal ++ word) = .error err) := by
  obtain ⟨n, hliteral, rfl⟩ := literal_of_readNumber h
  have hproduct := evaluate_product hliteral
  have hother (hdecimal : ¬IsDecimal literal) :
      ∃ err : Error, err.isFormal = true ∧ evaluate (literal ++ word) = .error err := by
    obtain ⟨err, hformal, hvalue⟩ :=
      (hliteral.breaksOff hdecimal hword).formal standardTable
    refine ⟨err, hformal, ?_⟩
    rw [evaluate_degrees hliteral hword, hvalue]
    rfl
  refine ⟨hproduct, ⟨fun hsame => ?_, fun hdecimal => ?_⟩, hother⟩
  · by_contra hdecimal
    obtain ⟨err, hformal, herr⟩ := hother hdecimal
    rw [herr, hproduct] at hsame
    rw [isFormal_of_settle hsame.symm] at hformal
    cases hformal
  · rw [evaluate_decimal_degrees hliteral hdecimal hword, hproduct]

theorem evaluate_degrees_iff_half : readNumber "2.5".toList = .ok (2.5, []) ∧
    "degrees".toList ∈ degreeWords ∧
    evaluate "2.5degrees".toList = settle (2.5 * (Constant.pi / 180)) := by
  have hread : readNumber "2.5".toList = .ok (2.5, []) := rfl
  have hword : "degrees".toList ∈ degreeWords := by decide
  have hdecimal : IsDecimal "2.5".toList :=
    @IsDecimal.pointed ['2'] ['5'] (by decide) (by decide) (List.all_eq_true.mp (by decide))
      (List.all_eq_true.mp (by decide))
  obtain ⟨hproduct, hiff, -⟩ := evaluate_degrees_iff hread hword
  exact ⟨hread, hword, (hiff.mpr hdecimal).trans hproduct⟩

/-- The half of a degree is a number only with a zero in front of the point. -/
theorem half_degree_unread : readNumber ".5".toList = .ok (0.5, []) ∧
    evaluate "(.5)*0.017453292519943295".toList = .ok 0.00872664626 ∧
    evaluate "0.5degrees".toList = .ok 0.00872664626 ∧
    evaluate ".5degrees".toList = .error (.badNumber ['.']) := by
  decide +kernel

end DeskCalc.Expression

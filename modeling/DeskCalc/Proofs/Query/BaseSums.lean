import DeskCalc.Proofs.Number.Integers
import DeskCalc.Proofs.Query.Characters
import DeskCalc.Proofs.Query.Numerals
import DeskCalc.Query.BaseSum

/-!
# Sums of numerals

A sum joins rows of decimal digits and numerals with the mark of a base by single signs.  Its text
is cut at the signs, and the operands are added one by one.  As long as no operand and no partial
sum exceeds `2 ^ 53`, no addition is rounded, and the text of the total is a numeral of the exact
sum.  A numeral without digits, or with one outside of its base, makes the sum no sum.

The main statement is `baseSum_of_written`.
-/

namespace DeskCalc.Query

open Number (Radix digitOf? exactValue nearestTo numberText ofInt readDigits? readOperand signed)
open Text (Shape StopsBefore)

/-! ## Texts without a group -/

section Groups

variable {s : Text}

theorem head_of_fits_group {inside rest : Text} (h : group.Fits s inside rest) :
    s.head? = some '(' := by
  obtain ⟨c, t, hopening, -⟩ := Shape.fits_bind.mp h
  rw [(Shape.fits_char.mp hopening).1]
  rfl

theorem groupTimes_eq_none (h : s.head? ≠ some '(') : groupTimes.read? s = none := by
  rw [Option.eq_none_iff_forall_ne_some]
  intro parts hread
  obtain ⟨rest, hfits⟩ := Shape.fits_of_read? hread
  obtain ⟨inside, t, hgroup, -⟩ := Shape.fits_bind.mp hfits
  exact h (head_of_fits_group hgroup)

theorem loneGroup_eq_none (h : s.head? ≠ some '(') : loneGroup.read? s = none := by
  rw [Option.eq_none_iff_forall_ne_some]
  intro inside hread
  obtain ⟨rest, hfits⟩ := Shape.fits_of_read? hread
  obtain ⟨inside, t, hgroup, -⟩ := Shape.fits_bind.mp hfits
  exact h (head_of_fits_group hgroup)

theorem nestedTimes_eq_none (h : s.head? ≠ some '(') : nestedTimes.read? s = none := by
  rw [Option.eq_none_iff_forall_ne_some]
  intro parts hread
  obtain ⟨rest, hfits⟩ := Shape.fits_of_read? hread
  obtain ⟨c, t, hopening, -⟩ := Shape.fits_bind.mp hfits
  rw [(Shape.fits_char.mp hopening).1] at h
  exact h rfl

/-- A text that does not begin with a group is a plain sum. -/
theorem baseTotal_of_no_group (h : s.head? ≠ some '(') : baseTotal s = plainTotal s := by
  simp only [baseTotal, groupTimes_eq_none h, loneGroup_eq_none h, nestedTimes_eq_none h]
  rfl

end Groups

/-! ## Cutting at the signs -/

/-- The sign of an operand. -/
def signChar (negative : Bool) : Char :=
  if negative then '-' else '+'

/-- A character that is no sign of an operand. -/
def Unsigned (c : Char) : Prop :=
  c ≠ '+' ∧ c ≠ '-'

instance (c : Char) : Decidable (Unsigned c) :=
  inferInstanceAs (Decidable (_ ∧ _))

section Cutting

variable {negative : Bool} {taken s rest : Text}

theorem signedOperands_append (h : ∀ c ∈ s, Unsigned c) :
    signedOperands negative taken (s ++ rest) =
      signedOperands negative (s.reverse ++ taken) rest := by
  induction s generalizing taken with
  | nil => rfl
  | cons c s ih =>
    obtain ⟨hplus, hminus⟩ := h c List.mem_cons_self
    have hstep : signedOperands negative taken (c :: (s ++ rest)) =
        signedOperands negative (c :: taken) (s ++ rest) := by
      rw [signedOperands]
      · exact hplus
      · exact hminus
    rw [List.cons_append, hstep, ih fun d hd => h d (List.mem_cons_of_mem c hd), List.reverse_cons,
      List.append_assoc]
    rfl

theorem signedOperands_sign (negative' : Bool) :
    signedOperands negative taken (signChar negative' :: rest) =
      (negative, taken.reverse) :: signedOperands negative' [] rest := by
  cases negative' <;> rfl

theorem unsigned_of_isBlank {c : Char} (h : Text.isBlank c = true) : Unsigned c := by
  constructor <;> rintro rfl <;> cases h

theorem unsigned_of_isDigit {c : Char} (h : Text.isDigit c = true) : Unsigned c := by
  constructor <;> rintro rfl <;> cases h

/-- Behind a sign the cutting begins anew. -/
theorem signedOperands_split (negative negative' : Bool) (taken s t : Text) :
    signedOperands negative taken (s ++ signChar negative' :: t) =
      signedOperands negative taken s ++ signedOperands negative' [] t := by
  induction s generalizing negative taken with
  | nil => exact signedOperands_sign negative'
  | cons c s ih =>
    by_cases hsign : ∃ negative'', c = signChar negative''
    · obtain ⟨negative'', rfl⟩ := hsign
      rw [List.cons_append, signedOperands_sign, signedOperands_sign, ih, List.cons_append]
    · have hunsigned : ∀ d ∈ [c], Unsigned d := List.forall_mem_singleton.mpr
        ⟨fun hc => hsign ⟨false, hc⟩, fun hc => hsign ⟨true, hc⟩⟩
      have hstep (u : Text) := @signedOperands_append negative taken [c] u hunsigned
      simp only [List.singleton_append] at hstep
      rw [List.cons_append, hstep, hstep, ih]

theorem signedOperands_unsigned (hs : ∀ c ∈ s, Unsigned c) :
    signedOperands negative [] s = [(negative, s)] := by
  have hcut := @signedOperands_append negative [] s [] hs
  rw [List.append_nil, List.append_nil] at hcut
  rw [hcut, signedOperands, List.reverse_reverse]

/-- The operands of a text that stands behind a sign. -/
def operandsBehind (negative : Bool) (s : Text) : List (Bool × Text) :=
  (signedOperands negative [] s).filter fun o => !o.2.all Text.isBlank

theorem operandsBehind_sign (negative negative' : Bool) (s t : Text) :
    operandsBehind negative (s ++ signChar negative' :: t) =
      operandsBehind negative s ++ operandsBehind negative' t := by
  rw [operandsBehind, signedOperands_split, List.filter_append]
  rfl

theorem operandsBehind_blanks (negative : Bool) (hs : ∀ c ∈ s, Text.isBlank c = true) :
    operandsBehind negative s = [] := by
  have hall : s.all Text.isBlank = true := List.all_eq_true.mpr hs
  rw [operandsBehind, signedOperands_unsigned fun c hc => unsigned_of_isBlank (hs c hc)]
  simp [hall]

theorem operandsBehind_unsigned (negative : Bool) (hs : ∀ c ∈ s, Unsigned c)
    (hblank : s.all Text.isBlank = false) : operandsBehind negative s = [(negative, s)] := by
  rw [operandsBehind, signedOperands_unsigned hs]
  simp [hblank]

end Cutting

/-! ## Operands -/

/-- Whether there are digits, and all belong to a base. -/
def areDigitsOf (base : ℕ) (digits : Text) : Bool :=
  !digits.isEmpty && digits.all fun c => (digitOf? c).any (· < base)

/-- An operand as it is written. -/
inductive Operand where
  /-- a row of decimal digits -/
  | plain (digits : Text) (ne_nil : digits ≠ []) (areDigits : ∀ c ∈ digits, Text.isDigit c = true)
  /-- the mark of a base, in either case, and what stands behind it -/
  | marked (r : Radix) (mark : Char) (digits : Text) (announces : Radix.ofMark? mark = some r)
    (joined : ∀ c ∈ digits, Text.isBlank c = false ∧ Unsigned c)

namespace Operand

/-- The text of an operand. -/
def text : Operand → Text
  | plain digits _ _ => digits
  | marked _ mark digits _ _ => '0' :: mark :: digits

/-- The number that an operand denotes, if its digits belong to its base. -/
def value? : Operand → Option ℕ
  | plain digits _ _ => some (Text.digitsValue digits)
  | marked r _ digits _ _ =>
    if areDigitsOf r.base digits then some (numeralValue r.base digits) else none

end Operand

/-- An operand with its sign, and with blanks around it. -/
structure Addend where
  negative : Bool
  left : Text
  operand : Operand
  right : Text
  blank_left : ∀ c ∈ left, Text.isBlank c = true
  blank_right : ∀ c ∈ right, Text.isBlank c = true

namespace Addend

/-- What stands behind the sign. -/
def text (a : Addend) : Text :=
  a.left ++ (a.operand.text ++ a.right)

/-- The number that is added. -/
def value? (a : Addend) : Option ℤ :=
  a.operand.value?.map fun (n : ℕ) => if a.negative then -(n : ℤ) else n

end Addend

/-- A sum as it is written.  The sign of the first operand may be left out if it is a plus. -/
structure WrittenSum where
  first : Addend
  rest : List Addend
  /-- the blanks before the sign of the first operand, if it is written -/
  opening? : Option Text
  blank_opening : ∀ s ∈ opening?, ∀ c ∈ s, Text.isBlank c = true
  positive : opening? = none → first.negative = false

namespace WrittenSum

/-- All operands of a sum. -/
def addends (s : WrittenSum) : List Addend :=
  s.first :: s.rest

/-- The text of a sum. -/
def text (s : WrittenSum) : Text :=
  (s.opening?.elim [] fun blanks => blanks ++ [signChar s.first.negative]) ++
    (s.first.text ++ s.rest.flatMap fun a => signChar a.negative :: a.text)

end WrittenSum

section Operands

variable {a : Addend}

theorem mapM_digitOf?_eq (digits : Text) : digits.mapM digitOf? =
    if digits.all fun c => (digitOf? c).isSome then some (digits.map fun c => (digitOf? c).getD 0)
    else none := by
  induction digits with
  | nil => rfl
  | cons c s ih =>
    rw [List.mapM_cons, ih, List.all_cons, List.map_cons]
    cases digitOf? c with
    | none => rfl
    | some d => cases s.all fun c => (digitOf? c).isSome <;> rfl

theorem readDigits?_eq (base : ℕ) (digits : Text) : readDigits? base digits =
    if areDigitsOf base digits then some (numeralValue base digits) else none := by
  have hany (c : Char) : (digitOf? c).any (· < base) = true ↔
      (digitOf? c).isSome = true ∧ (digitOf? c).getD 0 < base := by
    cases digitOf? c <;> simp
  have hbelong : (digits.all fun c => (digitOf? c).any (· < base)) = true ↔
      (digits.all fun c => (digitOf? c).isSome) = true ∧
        ((digits.map fun c => (digitOf? c).getD 0).all (· < base)) = true := by
    simp only [List.all_eq_true, List.forall_mem_map, decide_eq_true_iff, hany]
    exact ⟨fun h => ⟨fun c hc => (h c hc).1, fun c hc => (h c hc).2⟩,
      fun h c hc => ⟨h.1 c hc, h.2 c hc⟩⟩
  rw [readDigits?, mapM_digitOf?_eq, numeralValue]
  cases digits with
  | nil => rfl
  | cons c s =>
    have hdigits : areDigitsOf base (c :: s) = true ↔ _ := hbelong
    simp only [hdigits]
    cases hsome : (c :: s).all fun c => (digitOf? c).isSome <;> simp

/-- Only the marks and their upper cases announce a base. -/
theorem mem_marks {c : Char} {r : Radix} (h : Radix.ofMark? c = some r) :
    c ∈ "xXoObB".toList := by
  have hmark := List.find?_some h
  rw [beq_iff_eq] at hmark
  have hmem : r.mark ∈ "xob".toList := by
    have hall : ∀ r ∈ [Radix.hex, .octal, .binary], r.mark ∈ "xob".toList := by decide
    exact hall r (List.mem_of_find?_eq_some h)
  rw [hmark] at hmem
  by_cases hupper : c.isUpper = true
  · obtain ⟨hlow, hhigh⟩ := Text.isUpper_iff.mp hupper
    rw [← Char.ofNat_toNat c] at hmem ⊢
    interval_cases c.toNat <;> revert hmem <;> decide
  · have hsame : c.toLower = c := dif_neg (mt decide_eq_true hupper)
    have hall : ∀ c ∈ "xob".toList, c ∈ "xXoObB".toList :=
      List.forall_iff_forall_mem.mp (by decide)
    exact hall c (hsame ▸ hmem)

namespace Operand

variable (o : Operand)

theorem ne_nil : o.text ≠ [] := by
  cases o with
  | plain digits ne_nil areDigits => exact ne_nil
  | marked r mark digits announces joined => exact List.cons_ne_nil _ _

/-- An operand has no blanks and no signs in it. -/
theorem joined : ∀ c ∈ o.text, Text.isBlank c = false ∧ Unsigned c := by
  cases o with
  | plain digits ne_nil areDigits =>
    exact fun c hc => ⟨Text.isBlank_of_isDigit (areDigits c hc), unsigned_of_isDigit (areDigits c hc)⟩
  | marked r mark digits announces joined =>
    have hmarks : ∀ c ∈ "0xXoObB".toList, Text.isBlank c = false ∧ Unsigned c :=
      List.forall_iff_forall_mem.mp (by decide)
    exact List.forall_mem_cons.mpr ⟨hmarks '0' (by decide), List.forall_mem_cons.mpr
      ⟨hmarks mark (List.mem_cons_of_mem _ (mem_marks announces)), joined⟩⟩

end Operand

/-- Stripping takes away blanks at both ends of a text. -/
theorem strip_around {left s : Text} (right : Text) (hleft : ∀ c ∈ left, Text.isBlank c = true)
    (hne : s ≠ []) (hs : ∀ c ∈ s, Text.isBlank c = false) :
    Text.strip (left ++ (s ++ right)) = s ++ (right.reverse.dropWhile Text.isBlank).reverse := by
  have hstop {u : Text} (hu : u ≠ []) (hall : ∀ c ∈ u, Text.isBlank c = false) (v : Text) :
      (u ++ v).dropWhile Text.isBlank = u ++ v := by
    obtain ⟨c, w, rfl⟩ := List.exists_cons_of_ne_nil hu
    exact Text.dropWhile_of_stops (Text.stopsBefore_cons.mpr (hall c List.mem_cons_self))
  have hback : (right.reverse ++ s.reverse).dropWhile Text.isBlank =
      right.reverse.dropWhile Text.isBlank ++ s.reverse := by
    rw [List.dropWhile_append]
    have hsame := hstop (List.reverse_ne_nil_iff.mpr hne)
      (fun c hc => hs c (List.mem_reverse.mp hc)) []
    rw [List.append_nil] at hsame
    split
    next hempty => rw [List.isEmpty_iff.mp hempty, hsame, List.nil_append]
    · rfl
  rw [Text.strip, Text.trim, List.dropWhile_append_of_pos hleft, hstop hne hs,
    List.reverse_append, hback, List.reverse_append, List.reverse_reverse]

namespace Addend

theorem strip_text (a : Addend) : Text.strip a.text = a.operand.text := by
  have hempty : a.right.reverse.dropWhile Text.isBlank = [] :=
    List.dropWhile_eq_nil_iff.mpr fun c hc => a.blank_right c (List.mem_reverse.mp hc)
  have hstrip := strip_around a.right a.blank_left a.operand.ne_nil
    fun c hc => (a.operand.joined c hc).1
  rw [text, hstrip, hempty, List.reverse_nil, List.append_nil]

theorem unsigned_text (a : Addend) : ∀ c ∈ a.text, Unsigned c := by
  intro c hc
  rcases List.mem_append.mp hc with hc | hc
  · exact unsigned_of_isBlank (a.blank_left c hc)
  · rcases List.mem_append.mp hc with hc | hc
    · exact (a.operand.joined c hc).2
    · exact unsigned_of_isBlank (a.blank_right c hc)

theorem not_blank_text (a : Addend) : a.text.all Text.isBlank = false := by
  obtain ⟨c, t, htext⟩ := List.exists_cons_of_ne_nil a.operand.ne_nil
  have hc : c ∈ a.operand.text := htext ▸ List.mem_cons_self
  rw [List.all_eq_false]
  refine ⟨c, List.mem_append_right _ (List.mem_append_left _ hc), ?_⟩
  rw [(a.operand.joined c hc).1]
  exact Bool.false_ne_true

theorem operandsBehind_text (a : Addend) :
    operandsBehind a.negative a.text = [(a.negative, a.text)] :=
  operandsBehind_unsigned a.negative a.unsigned_text a.not_blank_text

end Addend

/-- Cutting at the signs gives the operands. -/
theorem operandsBehind_addends (a : Addend) (rest : List Addend) :
    operandsBehind a.negative (a.text ++ rest.flatMap fun b => signChar b.negative :: b.text) =
      (a :: rest).map fun b => (b.negative, b.text) := by
  induction rest generalizing a with
  | nil => rw [List.flatMap_nil, List.append_nil, a.operandsBehind_text, List.map_singleton]
  | cons b rest ih =>
    rw [List.flatMap_cons, List.cons_append, operandsBehind_sign, a.operandsBehind_text, ih]
    rfl

theorem operands_text (s : WrittenSum) :
    operands s.text = s.addends.map fun a => (a.negative, a.text) := by
  have haddends := operandsBehind_addends s.first s.rest
  show operandsBehind false s.text = _
  rw [WrittenSum.text]
  cases hopening : s.opening? with
  | none =>
    rw [s.positive hopening] at haddends
    rw [Option.elim_none, List.nil_append, haddends, WrittenSum.addends]
  | some blanks =>
    rw [Option.elim_some, List.append_assoc, List.singleton_append, operandsBehind_sign,
      operandsBehind_blanks false (s.blank_opening blanks hopening), List.nil_append, haddends,
      WrittenSum.addends]

end Operands

/-! ## Reading operands -/

section Reading

variable {a : Addend} {n : ℕ}

/-- Where a text begins with neither a blank nor a sign nor a name, the longest numeral is its
number. -/
theorem leadingNumber?_of_numeral {c : Char} {t rest : Text} {n : Number.Numeral}
    (hblank : Text.isBlank c = false) (hsign : Unsigned c) (hletter : c ≠ 'I')
    (hread : Number.readNumeral? (c :: t) = some (n, rest)) :
    Number.leadingNumber? (c :: t) = some n.value := by
  obtain ⟨hplus, hminus⟩ := hsign
  have hstart : Text.stripLeft (c :: t) = c :: t :=
    Text.dropWhile_of_stops (Text.stopsBefore_cons.mpr hblank)
  have hunsigned : Number.readSign (c :: t) = (false, c :: t) := by
    simp [Number.readSign, hplus, hminus]
  have hname : "Infinity".toList.isPrefixOf (c :: t) = false := by
    have hsplit : "Infinity".toList = 'I' :: "nfinity".toList := by decide
    rw [hsplit, List.isPrefixOf_cons_cons, beq_eq_false_iff_ne.mpr hletter.symm, Bool.false_and]
  simp only [Number.leadingNumber?, hstart, hunsigned, hname, hread, Bool.false_eq_true, if_false,
    Option.map_some]
  rfl

/-- The value of a row of digits is the double nearest to its number. -/
theorem value_digits (digits : Text) :
    Number.Numeral.value ⟨digits, [], 0⟩ = ofInt (Text.digitsValue digits) := by
  have hone : Number.tenTo 0 = 1 := rfl
  have hpositive : decide ((Text.digitsValue digits : ℤ) < 0) = false := decide_eq_false (by omega)
  rw [Number.Numeral.value, List.append_nil, Number.ofDecimal_eq, ofInt, hpositive]
  simp [hone]

/-- A row of decimal digits is read as this double. -/
theorem leadingNumber?_digits {digits : Text} (hne : digits ≠ [])
    (h : ∀ c ∈ digits, Text.isDigit c = true) :
    Number.leadingNumber? digits = some (ofInt (Text.digitsValue digits)) := by
  have hread : Number.readNumeral? digits = some (⟨digits, [], 0⟩, []) := by
    have htake : digits.takeWhile Text.isDigit = digits := List.takeWhile_eq_self_iff.mpr h
    have hdrop : digits.dropWhile Text.isDigit = [] := List.dropWhile_eq_nil_iff.mpr h
    rw [Number.readNumeral?, htake, hdrop]
    simp [hne, Number.readExponent]
  obtain ⟨c, t, rfl⟩ := List.exists_cons_of_ne_nil hne
  have hc := h c List.mem_cons_self
  have hletter : c ≠ 'I' := by
    rintro rfl
    cases hc
  rw [leadingNumber?_of_numeral (Text.isBlank_of_isDigit hc) (unsigned_of_isDigit hc) hletter hread,
    value_digits]

/-- An operand without a mark of a base is read as the number at its beginning. -/
theorem readOperand_unmarked {s u : Text} (hstrip : Text.strip s = u)
    (hmark : ∀ c ∈ u, Radix.ofMark? c = none) :
    readOperand s = Attempt.ofOption (Number.leadingNumber? u) := by
  rw [readOperand, hstrip]
  split
  next r digits hbased =>
    split at hbased
    next mark digits' =>
      rw [hmark mark (by simp)] at hbased
      cases hbased
    next => cases hbased
  next => rfl

/-- What is read of an operand: a row of decimal digits always gives a double, and a numeral of a
base if its digits belong to it and there is a double for it. -/
theorem readOperand_text (a : Addend) : readOperand a.text = match a.operand with
    | .plain digits _ _ => .found (ofInt (Text.digitsValue digits))
    | .marked r _ digits _ _ =>
      if areDigitsOf r.base digits then
        Attempt.orBreak .tooLarge (Number.ofInt? (numeralValue r.base digits))
      else .nothing := by
  cases hoperand : a.operand with
  | plain digits ne_nil areDigits =>
    have hstrip : Text.strip a.text = digits := by rw [a.strip_text, hoperand]; rfl
    rw [readOperand_unmarked hstrip, leadingNumber?_digits ne_nil areDigits]
    · rfl
    · intro c hc
      rw [Option.eq_none_iff_forall_ne_some]
      intro r hmark
      have hmarks : ∀ c ∈ "xXoObB".toList, Text.isDigit c = false :=
        List.forall_iff_forall_mem.mp (by decide)
      have hdigit := areDigits c hc
      rw [hmarks c (mem_marks hmark)] at hdigit
      cases hdigit
  | marked r mark digits announces joined =>
    rw [readOperand, a.strip_text, hoperand]
    simp only [Operand.text, announces, Option.map_some, readDigits?_eq]
    split <;> rfl

theorem readOperand_of_small (h : a.operand.value? = some n) (hn : n ≤ 2 ^ 53) :
    readOperand a.text = .found (ofInt n) := by
  rw [readOperand_text]
  cases hoperand : a.operand with
  | plain digits ne_nil areDigits =>
    rw [hoperand] at h
    cases h
    rfl
  | marked r mark digits announces joined =>
    rw [hoperand, Operand.value?] at h
    split at h
    next hdigits =>
      cases h
      have hrepresentable := @Number.representable_int (numeralValue r.base digits) hn
      simp only [if_pos hdigits]
      rw [Number.ofInt?, ← ofInt, Number.ofInt_eq, if_pos hrepresentable.1]
      rfl
    next => cases h

theorem exists_readOperand (h : a.operand.value? = some n) (hn : n < (2 ^ 54 - 1) * 2 ^ 970) :
    ∃ x, readOperand a.text = .found x := by
  rw [readOperand_text]
  cases hoperand : a.operand with
  | plain digits ne_nil areDigits => exact ⟨_, rfl⟩
  | marked r mark digits announces joined =>
    rw [hoperand, Operand.value?] at h
    split at h
    next hdigits =>
      cases h
      have hint := Number.ofInt?_eq (n := numeralValue r.base digits) (by rwa [Number.twoTo_eq])
      simp only [if_pos hdigits]
      exact ⟨_, by rw [hint]; rfl⟩
    next => cases h

theorem readOperand_of_none (h : a.operand.value? = none) : readOperand a.text = .nothing := by
  rw [readOperand_text]
  cases hoperand : a.operand with
  | plain digits ne_nil areDigits =>
    rw [hoperand] at h
    cases h
  | marked r mark digits announces joined =>
    rw [hoperand, Operand.value?] at h
    split at h
    next => cases h
    next hdigits => exact if_neg hdigits

end Reading

/-! ## Adding operands -/

section Adding

variable {a : Addend} {as : List Addend} {S v : ℤ}

theorem eq_of_agree {x y : Float} (h : Number.Agree x y) (hne : exactValue y ≠ 0) : x = y := by
  have hne' : exactValue x ≠ 0 := h.2 ▸ hne
  exact Number.eq_of_parts (by rw [Number.signBit_eq hne, Number.signBit_eq hne', h.2]) h.1

/-- The sum of two integers is rounded once. -/
theorem ofInt_add (hS : S.natAbs ≤ 2 ^ 53) {n : ℕ} (hn : n ≤ 2 ^ 53) (negative : Bool) :
    (ofInt S + if negative then -ofInt n else ofInt n) =
      ofInt (S + if negative then -(n : ℤ) else n) := by
  obtain ⟨hfinite, hvalue⟩ := Number.representable_int hS
  obtain ⟨hfinite', hvalue'⟩ := @Number.representable_int n hn
  rw [← Number.ofInt_eq] at hfinite hvalue hfinite' hvalue'
  obtain ⟨y, hy⟩ : ∃ y, y = if negative then -ofInt n else ofInt n := ⟨_, rfl⟩
  have hoperand : y.isFinite = true ∧ exactValue y = (if negative then -(n : ℤ) else n : ℤ) := by
    cases negative with
    | false => exact hy ▸ ⟨hfinite', hvalue'⟩
    | true =>
      rw [hy, if_pos rfl, if_pos rfl, Number.exactValue_neg hfinite', hvalue', Int.cast_neg]
      exact ⟨Number.isFinite_neg hfinite', rfl⟩
  have hagree := Number.add_agree hfinite hoperand.1
  rw [hvalue, hoperand.2, ← Int.cast_add, ← Number.ofInt_eq] at hagree
  rw [← hy]
  by_cases hzero : n = 0
  · by_cases hzero' : S = 0
    · rw [hy, hzero, hzero']
      cases negative <;> rfl
    · apply eq_of_agree hagree
      have hsame : (if negative then -(n : ℤ) else n) = 0 := by rw [hzero]; cases negative <;> rfl
      rw [hsame, add_zero, hvalue]
      exact_mod_cast hzero'
  · have hne : exactValue y ≠ 0 := by
      rw [hoperand.2]
      have hn' : (if negative then -(n : ℤ) else n) ≠ 0 := by split <;> omega
      exact_mod_cast hn'
    rw [Number.add_eq hfinite hoperand.1 hne, hvalue, hoperand.2, ← Int.cast_add, Number.ofInt_eq]

/-- One operand is added exactly. -/
theorem addOperands_step (h : a.value? = some v) (hv : v.natAbs ≤ 2 ^ 53) (hS : S.natAbs ≤ 2 ^ 53)
    (rest : List (Bool × Text)) :
    addOperands (ofInt S) ((a.negative, a.text) :: rest) = addOperands (ofInt (S + v)) rest := by
  obtain ⟨n, hn, rfl⟩ := Option.map_eq_some_iff.mp h
  have hsmall : n ≤ 2 ^ 53 := by
    revert hv
    split <;> omega
  rw [addOperands, readOperand_of_small hn hsmall, Attempt.found_bind, ofInt_add hS hsmall]

/-- Operands are added exactly as long as neither they nor the partial sums are large. -/
theorem addOperands_addends {values : List ℤ} (h : as.mapM Addend.value? = some values)
    (hvalues : ∀ v ∈ values, v.natAbs ≤ 2 ^ 53)
    (hsums : ∀ front, front <+: values → (S + front.sum).natAbs ≤ 2 ^ 53) :
    addOperands (ofInt S) (as.map fun a => (a.negative, a.text)) =
      .found (ofInt (S + values.sum)) := by
  induction as generalizing values S with
  | nil =>
    obtain rfl : values = [] := by simpa using h.symm
    rw [List.sum_nil, add_zero]
    rfl
  | cons a as ih =>
    rw [List.mapM_cons] at h
    obtain ⟨v, hv, values, hrest, rfl⟩ : ∃ v, a.value? = some v ∧
        ∃ rest, as.mapM Addend.value? = some rest ∧ v :: rest = values := by
      simpa [Option.bind_eq_some_iff] using h
    have hstart := hsums [] (List.nil_prefix)
    rw [List.sum_nil, add_zero] at hstart
    rw [List.map_cons, addOperands_step hv (hvalues v List.mem_cons_self) hstart,
      ih hrest (fun w hw => hvalues w (List.mem_cons_of_mem v hw)), List.sum_cons, add_assoc]
    intro front hfront
    have hnext := hsums (v :: front) (List.cons_prefix_cons.mpr ⟨rfl, hfront⟩)
    rwa [List.sum_cons, ← add_assoc] at hnext

/-- A numeral with a digit that does not belong to its base makes the sum no sum. -/
theorem addOperands_nothing (hbad : ∃ a ∈ as, a.operand.value? = none)
    (hsize : ∀ a ∈ as, ∀ n, a.operand.value? = some n → n < (2 ^ 54 - 1) * 2 ^ 970)
    (total : Float) : addOperands total (as.map fun a => (a.negative, a.text)) = .nothing := by
  induction as generalizing total with
  | nil =>
    obtain ⟨a, ha, -⟩ := hbad
    cases ha
  | cons a as ih =>
    rw [List.map_cons, addOperands]
    cases hvalue : a.operand.value? with
    | none =>
      rw [readOperand_of_none hvalue]
      rfl
    | some n =>
      obtain ⟨x, hx⟩ := exists_readOperand hvalue (hsize a List.mem_cons_self n hvalue)
      rw [hx, Attempt.found_bind]
      apply ih _ fun b hb => hsize b (List.mem_cons_of_mem a hb)
      obtain ⟨b, hb, hnone⟩ := hbad
      rcases List.mem_cons.mp hb with rfl | hb
      · rw [hvalue] at hnone
        cases hnone
      · exact ⟨b, hb, hnone⟩

end Adding

/-! ## Numerals of integers -/

/-- What stands before the sign and the digits of a numeral. -/
def opening (r : Radix) : Text :=
  if r = .decimal then [] else ['0', r.mark]

section Integers

variable {m k : ℕ} {n : ℤ}

/-- Digits in front of zeros are a decimal numeral. -/
theorem isNumeral_decimal (hm : m ≠ 0) :
    IsNumeral .decimal (Number.natText m ++ Number.zeros k) [] (m * 10 ^ k : ℕ) := by
  have hwritten : Number.natText m ++ Number.zeros k =
      written .decimal (Number.digitsIn 10 m ++ List.replicate k 0) := by
    have hplain : writtenDigit .decimal = id := by
      funext c
      exact if_neg (by decide)
    rw [written, hplain, List.map_id, List.map_append, List.map_replicate]
    rfl
  have hlt {d : ℕ} (hd : d ∈ Number.digitsIn 10 m ++ List.replicate k 0) : d < 10 := by
    rcases List.mem_append.mp hd with hd | hd
    · exact Number.lt_of_mem_digitsIn (by norm_num) hd
    · rw [List.eq_of_mem_replicate hd]
      norm_num
  refine ⟨?_, fun c hc => ?_, fun hlead => ?_, (Option.some_ne_none _).symm, ?_⟩
  · exact List.append_ne_nil_of_left_ne_nil (Number.natText_ne_nil m) _
  · rw [List.append_nil, hwritten] at hc
    obtain ⟨d, hd, rfl⟩ := mem_written_iff.mp hc
    exact mem_digits_of_lt (hlt hd)
  · obtain ⟨c, t, htext, hc⟩ := Number.natText_head hm
    rw [htext] at hlead
    exact absurd (Option.some.inj hlead) hc
  · have hvalue : numeralValue 10 (Number.natText m ++ Number.zeros k) = m * 10 ^ k := by
      rw [hwritten]
      refine (@numeralValue_written .decimal _ fun d hd => (hlt hd).trans (by norm_num)).trans ?_
      show Number.ofDigits 10 _ = _
      rw [Number.ofDigits_append, Number.ofDigits_digitsIn (by norm_num), List.length_replicate,
        Number.ofDigits_replicate_zero, add_zero]
    show (numeralValue 10 _ : ℚ) + (numeralValue 10 [] : ℕ) / _ = _
    rw [hvalue]
    simp [numeralValue, Number.ofDigits]

/-- An integer up to `2 ^ 53` is written as a numeral without a fraction. -/
theorem exists_numeral_of_int (r : Radix) (hn : n.natAbs ≤ 2 ^ 53) :
    ∃ digits, r.text (ofInt n) = opening r ++ signed (decide (n < 0)) digits ∧
      IsNumeral r digits [] |(n : ℚ)| := by
  obtain ⟨hfinite, hvalue⟩ := Number.representable_int hn
  rw [← Number.ofInt_eq] at hfinite hvalue
  have hsign : decide (exactValue (ofInt n) < 0) = decide (n < 0) := by
    rw [hvalue, decide_eq_decide, Int.cast_lt_zero]
  by_cases hr : r = .decimal
  · subst hr
    have htext : Radix.decimal.text (ofInt n) = numberText (ofInt n) := rfl
    simp only [htext, opening, if_pos, List.nil_append]
    by_cases hzero : n = 0
    · subst hzero
      refine ⟨['0'], by decide +kernel, List.cons_ne_nil _ _,
        List.forall_iff_forall_mem.mp (by decide), fun _ => rfl, nofun, ?_⟩
      simp [numeralValue, Number.ofDigits, digitOf?]
    · have habs : |exactValue (ofInt n)| = n.natAbs := by
        rw [hvalue, ← Int.cast_abs, Int.abs_eq_natAbs, Int.cast_natCast]
      obtain ⟨m, k, hm, hproduct, hdigits⟩ :=
        Number.numberText_eq_of_int hfinite habs hn (Int.natAbs_ne_zero.mpr hzero)
      refine ⟨_, by rw [hdigits, hsign], ?_⟩
      rw [← Int.cast_abs, Int.abs_eq_natAbs, Int.cast_natCast, ← hproduct]
      exact isNumeral_decimal hm
  · have hempty := (written_fraction_eq_nil_iff (r := r)).mpr ⟨n, hvalue⟩
    have hnumeral := isNumeral_radix hr hfinite
    rw [hempty, hvalue] at hnumeral
    refine ⟨_, ?_, hnumeral⟩
    rw [radix_text_eq hr hfinite, hempty, hsign, opening, if_neg hr]
    rfl

end Integers

/-! ## Sums -/

namespace WrittenSum

/-- The numbers that are added, if all operands have one. -/
def values? (s : WrittenSum) : Option (List ℤ) :=
  s.addends.mapM Addend.value?

/-- A sum begins with a blank, a sign or a digit. -/
theorem head_text (s : WrittenSum) : s.text.head? ≠ some '(' := by
  have hblank {c : Char} (h : Text.isBlank c = true) : some c ≠ some '(' := by
    rintro ⟨⟩
    cases h
  rw [text]
  cases hopening : s.opening? with
  | some blanks =>
    have hblanks := s.blank_opening blanks hopening
    cases blanks with
    | nil => cases s.first.negative <;> exact nofun
    | cons c t => exact hblank (hblanks c List.mem_cons_self)
  | none =>
    rw [Option.elim_none, List.nil_append, Addend.text]
    cases hleft : s.first.left with
    | cons c t => exact hblank (s.first.blank_left c (hleft ▸ List.mem_cons_self))
    | nil =>
      cases s.first.operand with
      | marked r mark digits announces joined => exact nofun
      | plain digits ne_nil areDigits =>
        obtain ⟨c, t, rfl⟩ := List.exists_cons_of_ne_nil ne_nil
        have hdigit := areDigits c List.mem_cons_self
        rintro ⟨⟩
        cases hdigit

end WrittenSum

/-- A written sum is shown as the numeral of the exact sum, if neither an operand nor a partial sum
exceeds `2 ^ 53`.  If the digits of an operand are missing or do not belong to its base, nothing is
shown, unless an operand lies beyond all doubles. -/
theorem baseSum_of_written {r : Radix} {base : Text} (hbase : Radix.ofName? base = some r)
    (s : WrittenSum) :
    (∀ values, s.values? = some values → (∀ v ∈ values, v.natAbs ≤ 2 ^ 53) →
      (∀ front, front <+: values → front.sum.natAbs ≤ 2 ^ 53) →
      ∃ digits, baseSum s.text base =
          .found (opening r ++ signed (decide (values.sum < 0)) digits) ∧
        IsNumeral r digits [] |(values.sum : ℚ)|) ∧
    ((∃ a ∈ s.addends, a.operand.value? = none) →
      (∀ a ∈ s.addends, ∀ n, a.operand.value? = some n → n < (2 ^ 54 - 1) * 2 ^ 970) →
      baseSum s.text base = .nothing) := by
  have htotal : baseTotal s.text = addOperands (ofInt 0)
      (s.addends.map fun a => (a.negative, a.text)) := by
    have hzero : (0 : Float) = ofInt 0 := rfl
    rw [baseTotal_of_no_group s.head_text, plainTotal, operands_text, hzero]
  constructor
  · intro values hread hvalues hsums
    have hadd := addOperands_addends (S := 0) hread hvalues (by simpa using hsums)
    rw [zero_add] at hadd
    obtain ⟨digits, htext, hnumeral⟩ := exists_numeral_of_int r (hsums values List.prefix_rfl)
    refine ⟨digits, ?_, hnumeral⟩
    rw [baseSum, htotal, hadd, hbase, ← htext]
    rfl
  · intro hbad hsize
    rw [baseSum, htotal, addOperands_nothing hbad hsize]
    rfl

/-- Ten in hexadecimal is taken from seven and shown in octal; nineteen is no octal numeral. -/
theorem baseSum_of_written_mixed : Radix.ofName? "Octal".toList = some .octal ∧
    (∃ digits, baseSum " - 0xA + 7".toList "Octal".toList = .found ("0o-".toList ++ digits) ∧
      IsNumeral .octal digits [] 3) ∧
    baseSum "0o19+ 1".toList "Octal".toList = .nothing := by
  have hbase : Radix.ofName? "Octal".toList = some .octal := by decide
  have hblank : ∀ c ∈ [' '], Text.isBlank c = true := List.forall_mem_singleton.mpr (by decide)
  have hempty : ∀ c ∈ ([] : Text), Text.isBlank c = true := List.forall_mem_nil _
  let ten : Operand := .marked .hex 'x' ['A'] rfl
    (List.forall_mem_singleton.mpr ⟨by decide, by decide, by decide⟩)
  let seven : Operand := .plain ['7'] (List.cons_ne_nil _ _)
    (List.forall_mem_singleton.mpr (by decide))
  let nineteen : Operand := .marked .octal 'o' ['1', '9'] rfl
    (List.forall_mem_cons.mpr ⟨⟨by decide, by decide, by decide⟩,
      List.forall_mem_singleton.mpr ⟨by decide, by decide, by decide⟩⟩)
  let one : Operand := .plain ['1'] (List.cons_ne_nil _ _)
    (List.forall_mem_singleton.mpr (by decide))
  let sum : WrittenSum := ⟨⟨true, [' '], ten, [' '], hblank, hblank⟩,
    [⟨false, [' '], seven, [], hblank, hempty⟩], some [' '],
    fun s hs => by cases hs; exact hblank, nofun⟩
  let bad : WrittenSum := ⟨⟨false, [], nineteen, [], hempty, hempty⟩,
    [⟨false, [' '], one, [], hblank, hempty⟩], none, nofun, fun _ => rfl⟩
  have hsums : ∀ front ∈ [-10, (7 : ℤ)].inits, front.sum.natAbs ≤ 2 ^ 53 := by decide
  obtain ⟨digits, htext, hnumeral⟩ := (baseSum_of_written hbase sum).1 [-10, 7] rfl
    (by decide) fun front hfront => hsums front ((List.mem_inits front _).mpr hfront)
  refine ⟨hbase, ⟨digits, htext, ?_⟩, ?_⟩
  · have hvalue : |(([-10, 7] : List ℤ).sum : ℚ)| = 3 := by
      show |((-3 : ℤ) : ℚ)| = 3
      norm_num
    rwa [hvalue] at hnumeral
  · apply (baseSum_of_written hbase bad).2 ⟨_, List.mem_cons_self, rfl⟩
    intro a ha n hn
    have hone : ∀ a ∈ bad.addends, a.operand.value? = none ∨ a.operand.value? = some 1 :=
      List.forall_mem_cons.mpr ⟨.inl rfl, List.forall_mem_singleton.mpr (.inr rfl)⟩
    rcases hone a ha with h | h
    · rw [h] at hn
      cases hn
    · rw [h] at hn
      cases hn
      exact (by norm_num : 1 < 2 ^ 54 - 1).trans_le
        (Nat.le_mul_of_pos_right _ (by positivity))

end DeskCalc.Query

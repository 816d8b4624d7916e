import DeskCalc.Proofs.Expression.Zeros
import DeskCalc.Proofs.Query.BaseSums
import DeskCalc.Proofs.Session.Splicing

/-!
# Base sums and expressions

A sum of decimal numbers, and such a sum in parentheses times a whole number, is both a base sum and
an expression.  On these texts the two agree: what is shown in a base is the value of the
expression before it is settled, and all of the text counts.  Of an operand that is no decimal
number, as a product is none, a base sum reads only the number at its beginning, and of several
signs in front of a number only the last one.

The main statement is `baseSum_of_evaluate`.
-/

namespace DeskCalc.Expression

open Json (isNumberPart)
open Text (StopsBefore)

/-! ## Literals with something behind them -/

section Literals

variable {n : Number.Numeral} {s rest : Text}

theorem isNumberPart_of_isNumberChar {c : Char} (h : isNumberChar c = true) :
    isNumberPart c = true := by
  rw [isNumberChar, Bool.or_eq_true] at h
  rcases h with h | h <;> simp [isNumberPart, h]

/-- A mantissa is a literal without an exponent. -/
theorem Mantissa.literal {whole fraction body : Text} (h : Mantissa whole fraction body) :
    Literal ⟨whole, fraction, 0⟩ body [] := by
  have hliteral : Literal ⟨whole, fraction, 0⟩ (body ++ []) [] := by
    refine .plain h (Text.stopsBefore_nil _) ?_
    intro power written after hwritten hnil
    obtain ⟨c, t, rfl, -⟩ := hwritten.head
    cases hnil
  rwa [List.append_nil] at hliteral

/-- A literal that ends a text stays one in front of whatever does not continue it. -/
theorem Literal.append (h : Literal n s []) (hrest : StopsBefore isNumberPart rest) :
    Literal n (s ++ rest) rest := by
  cases h with
  | plain hbody _ _ =>
    rw [List.append_nil]
    refine .plain hbody
      (Json.stopsBefore_mono (fun c => isNumberPart_of_isNumberChar) hrest) ?_
    rintro p written after hwritten rfl
    obtain ⟨c, t, rfl, rfl | rfl⟩ := hwritten.head <;> cases hrest
  | scientific hbody hwritten _ =>
    rw [List.append_nil, List.append_assoc]
    exact .scientific hbody hwritten (Json.stopsBefore_isDigit hrest)

theorem readExponent_of_stops (h : StopsBefore isNumberPart s) :
    Number.readExponent s = (0, s) := by
  cases s with
  | nil => rfl
  | cons c s =>
    have hmark : (c == 'e' || c == 'E') = false := by
      simp only [Text.stopsBefore_cons, isNumberPart, Bool.or_eq_false_iff] at h
      rw [h.1.2, h.2, Bool.or_false]
    rw [Number.readExponent, hmark]
    rfl

/-- A literal is the longest numeral in front of whatever does not continue it. -/
theorem Literal.readNumeral? (h : Literal n s []) (hdigit : StopsBefore Text.isDigit rest)
    (hrest : StopsBefore isNumberPart rest) :
    Number.readNumeral? (s ++ rest) = some (n, rest) := by
  cases h with
  | plain hbody _ _ =>
    have hpoint := Json.stopsBefore_mono (fun c => isNumberPart_of_isNumberChar) hrest
    rw [List.append_nil, hbody.read hdigit hpoint, readExponent_of_stops hrest]
  | scientific hbody hwritten _ =>
    obtain ⟨hpoint, hstop⟩ := hwritten.stops rest
    rw [List.append_nil, List.append_assoc, hbody.read hstop hpoint,
      hwritten.read_append hdigit]

theorem isLiteralChar_of_literal (h : Literal n s []) : ∀ c ∈ s, isLiteralChar c = true := by
  obtain ⟨run, hrun, hall⟩ := h.exists_run
  rw [List.append_nil] at hrun
  exact hrun ▸ hall

/-- A literal that ends a text stands for its value. -/
theorem Literal.stands (h : Literal n s []) : Session.Stands .factor s (some n.value) 0 :=
  ⟨.number n, rfl, rfl, fun _ hrest => .number (h.append hrest)⟩

end Literals

end DeskCalc.Expression

namespace DeskCalc.Query

open Expression (Literal evaluate isLiteralChar isNumberChar plainZero prepare settle standardTable
  valueOf)
open Number (Radix applySign exactValue numberText readOperand signed)
open Session (Stands isKept)
open Text (StopsBefore stopsBefore_cons)
open Text.Shape (FitsOnly fitsOnly_atEnd fitsOnly_char fitsOnly_pure fitsOnly_run fitsOnly_run1)

/-! ## Texts for both -/

/-- A decimal number, its exponent without a sign, with blanks in front of it and behind it what
expressions drop. -/
inductive IsNumber : Text → Float → Prop where
  | intro {left s right : Text} {n : Number.Numeral} :
    (∀ c ∈ left, Text.isBlank c = true) → Literal n s [] → (∀ c ∈ s, Unsigned c) →
      (∀ c ∈ right, isKept c = false) → IsNumber (left ++ (s ++ right)) n.value

/-- A number behind signs, with blanks between them: `odd` tells whether an odd number of the signs
are minuses, and `negative` whether the last one is. -/
inductive IsSigned : Bool → Bool → Text → Float → Prop where
  | sign {s : Text} {x : Float} (negative : Bool) :
    IsNumber s x → IsSigned negative negative (signChar negative :: s) x
  | more {odd negative : Bool} {blanks s : Text} {x : Float} (minus : Bool) :
    (∀ c ∈ blanks, Text.isBlank c = true) → IsSigned odd negative s x →
      IsSigned (minus ^^ odd) negative (signChar minus :: (blanks ++ s)) x

/-- A sum of numbers, worked out from left to right.  Where several signs stand in front of a number,
the last one is the same as all of them together. -/
inductive IsSum : Text → Float → Prop where
  | number {s : Text} {x : Float} : IsNumber s x → IsSum s x
  | signed {blanks s : Text} {x : Float} {negative : Bool} :
    (∀ c ∈ blanks, Text.isBlank c = true) → IsSigned negative negative s x →
      IsSum (blanks ++ s) (applySign negative x)
  | more {s t : Text} {x y : Float} {negative : Bool} :
    IsSum s x → IsSigned negative negative t y →
      IsSum (s ++ t) (if negative then x - y else x + y)

/-- What base sums and expressions have in common: sums of numbers, and such a sum in parentheses
times a whole number. -/
inductive IsCommon : Text → Float → Prop where
  | sum {s : Text} {x : Float} : IsSum s x → IsCommon s x
  | times {s left right ending : Text} {x : Float} (count : Expression.Digits) :
    IsSum s x → (∀ c ∈ left, Text.isBlank c = true) → (∀ c ∈ right, Text.isBlank c = true) →
      ending = [] ∨ ending = ['\n'] →
      IsCommon ('(' :: (s ++ ')' :: (left ++ '*' :: (right ++ (count.text ++ ending)))))
        (x * countValue count.text)

variable {odd negative : Bool} {s t : Text} {x y : Float}

theorem isKept_of_isBlank {c : Char} (h : Text.isBlank c = true) : isKept c = false := by
  rw [isKept, h, Bool.true_or]
  rfl

theorem isKept_of_isLiteralChar {c : Char} (h : isLiteralChar c = true) : isKept c = true := by
  rw [isLiteralChar, isNumberChar, Bool.or_eq_true, Bool.or_eq_true, beq_iff_eq,
    List.contains_iff_mem] at h
  rcases h with (hdigit | rfl) | hmem
  · exact Session.isKept_of_isDigit hdigit
  · decide
  · have hall : ∀ c ∈ "eE+-".toList, isKept c = true := List.forall_iff_forall_mem.mp (by decide)
    exact hall c hmem

theorem isKept_literal {n : Number.Numeral} (h : Literal n s []) : ∀ c ∈ s, isKept c = true :=
  fun c hc => isKept_of_isLiteralChar (Expression.isLiteralChar_of_literal h c hc)

theorem isBlank_of_isLiteralChar {c : Char} (h : isLiteralChar c = true) :
    Text.isBlank c = false := by
  rw [Bool.eq_false_iff]
  intro hblank
  have hdropped := isKept_of_isBlank hblank
  rw [isKept_of_isLiteralChar h] at hdropped
  cases hdropped

theorem filter_isKept_eq_nil (h : ∀ c ∈ s, isKept c = false) : s.filter isKept = [] := by
  rw [List.filter_eq_nil_iff]
  intro c hc
  rw [h c hc]
  exact Bool.false_ne_true

theorem filter_isKept_blanks (h : ∀ c ∈ s, Text.isBlank c = true) : s.filter isKept = [] :=
  filter_isKept_eq_nil fun c hc => isKept_of_isBlank (h c hc)

/-! ## Characters -/

theorem isLiteralChar_signChar (negative : Bool) : isLiteralChar (signChar negative) = true := by
  cases negative <;> decide

theorem IsNumber.chars (h : IsNumber s x) : ∀ c ∈ s, isLiteralChar c = true ∨ isKept c = false := by
  obtain ⟨hleft, hliteral, -, hright⟩ := h
  intro c hc
  rcases List.mem_append.mp hc with hc | hc
  · exact .inr (isKept_of_isBlank (hleft c hc))
  · rcases List.mem_append.mp hc with hc | hc
    · exact .inl (Expression.isLiteralChar_of_literal hliteral c hc)
    · exact .inr (hright c hc)

theorem IsSigned.chars (h : IsSigned odd negative s x) :
    ∀ c ∈ s, isLiteralChar c = true ∨ isKept c = false := by
  induction h with
  | sign negative h => exact List.forall_mem_cons.mpr ⟨.inl (isLiteralChar_signChar _), h.chars⟩
  | more minus hblanks _ ih =>
    exact List.forall_mem_cons.mpr ⟨.inl (isLiteralChar_signChar _), List.forall_mem_append.mpr
      ⟨fun c hc => .inr (isKept_of_isBlank (hblanks c hc)), ih⟩⟩

theorem IsSum.chars (h : IsSum s x) : ∀ c ∈ s, isLiteralChar c = true ∨ isKept c = false := by
  induction h with
  | number h => exact h.chars
  | signed hblanks h =>
    exact List.forall_mem_append.mpr
      ⟨fun c hc => .inr (isKept_of_isBlank (hblanks c hc)), h.chars⟩
  | more _ h ih => exact List.forall_mem_append.mpr ⟨ih, h.chars⟩

/-- There are no parentheses in a sum. -/
theorem IsSum.no_parenthesis (h : IsSum s x) : '(' ∉ s ∧ ')' ∉ s := by
  constructor
  · intro hc
    rcases h.chars _ hc with hliteral | hdropped
    · cases hliteral
    · cases hdropped
  · intro hc
    rcases h.chars _ hc with hliteral | hdropped
    · cases hliteral
    · cases hdropped

/-! ## Numbers as operands -/

theorem stopsBefore_of_dropped {p : Char → Bool} {rest : Text}
    (hrest : ∀ c ∈ rest, isKept c = false) (hp : ∀ c, isKept c = false → p c = false) :
    StopsBefore p rest := by
  cases rest with
  | nil => rfl
  | cons c rest => exact hp c (hrest c List.mem_cons_self)

theorem isDigit_of_dropped {c : Char} (h : isKept c = false) : Text.isDigit c = false := by
  rw [isKept, Bool.not_eq_false', Bool.or_eq_true, beq_iff_eq] at h
  rcases h with hblank | rfl
  · exact Text.isDigit_of_isBlank hblank
  · decide

theorem isNumberPart_of_dropped {c : Char} (h : isKept c = false) :
    Json.isNumberPart c = false := by
  rw [Bool.eq_false_iff]
  intro hpart
  simp only [Json.isNumberPart, Bool.or_eq_true, beq_iff_eq] at hpart
  rcases hpart with ((hdigit | rfl) | rfl) | rfl
  · rw [Session.isKept_of_isDigit hdigit] at h
    cases h
  all_goals cases h

namespace IsNumber

theorem isNaN (h : IsNumber s x) : x.isNaN = false := by
  obtain ⟨-, -, -, -⟩ := h
  obtain ⟨-, hbits⟩ := Number.ofDecimal_parts false _ _
  exact Number.isNaN_of_bits_le (hbits.trans_le Number.nearestBits_le)

theorem unsigned (h : IsNumber s x) : ∀ c ∈ s, Unsigned c := by
  have hdropped {c : Char} (hc : isKept c = false) : Unsigned c := by
    constructor <;> rintro rfl <;> cases hc
  obtain ⟨hleft, -, hunsigned, hright⟩ := h
  exact List.forall_mem_append.mpr ⟨fun c hc => unsigned_of_isBlank (hleft c hc),
    List.forall_mem_append.mpr ⟨hunsigned, fun c hc => hdropped (hright c hc)⟩⟩

theorem not_blank (h : IsNumber s x) : s.all Text.isBlank = false := by
  obtain ⟨-, hliteral, -, -⟩ := h
  obtain ⟨c, t, rfl, -⟩ := hliteral.head
  rw [List.all_eq_false]
  refine ⟨c, by simp, ?_⟩
  rw [isBlank_of_isLiteralChar
    (Expression.isLiteralChar_of_literal hliteral c List.mem_cons_self)]
  exact Bool.false_ne_true

theorem operandsBehind (h : IsNumber s x) (negative : Bool) :
    Query.operandsBehind negative s = [(negative, s)] :=
  operandsBehind_unsigned negative h.unsigned h.not_blank

/-- As an operand, a number is read as its value. -/
theorem readOperand (h : IsNumber s x) : readOperand s = .found x := by
  obtain @⟨left, s, right, n, hleft, hliteral, hunsigned, hright⟩ := h
  have hblank (c : Char) (hc : c ∈ s) : Text.isBlank c = false :=
    isBlank_of_isLiteralChar (Expression.isLiteralChar_of_literal hliteral c hc)
  obtain ⟨c, t, rfl, hc⟩ := hliteral.head
  have hstrip := strip_around right hleft (List.cons_ne_nil c t) hblank
  set rest := (right.reverse.dropWhile Text.isBlank).reverse
  have hdropped (d : Char) (hd : d ∈ rest) : isKept d = false := by
    apply hright d
    exact List.mem_reverse.mp ((List.dropWhile_sublist _).mem (List.mem_reverse.mp hd))
  have hread := hliteral.readNumeral?
    (stopsBefore_of_dropped hdropped fun d => isDigit_of_dropped)
    (stopsBefore_of_dropped hdropped fun d => isNumberPart_of_dropped)
  have hletter : c ≠ 'I' := by
    rintro rfl
    cases hc
  have hleading := leadingNumber?_of_numeral (hblank c List.mem_cons_self)
    (hunsigned c List.mem_cons_self) hletter hread
  refine (readOperand_unmarked hstrip fun d hd => ?_).trans (congrArg _ hleading)
  rw [Option.eq_none_iff_forall_ne_some]
  intro r hmark
  have hmarks : ∀ d ∈ "xXoObB".toList, isLiteralChar d = false ∧ isKept d = true :=
    List.forall_iff_forall_mem.mp (by decide)
  obtain ⟨hnot, hkeep⟩ := hmarks d (mem_marks hmark)
  rcases List.mem_append.mp hd with hd | hd
  · rw [Expression.isLiteralChar_of_literal hliteral d hd] at hnot
    cases hnot
  · rw [hdropped d hd] at hkeep
    cases hkeep

/-- In an expression, a number stands for its value. -/
theorem stands (h : IsNumber s x) : Stands .factor (s.filter isKept) (some x) 0 := by
  obtain @⟨left, s, right, n, hleft, hliteral, hunsigned, hright⟩ := h
  have hfilter : (left ++ (s ++ right)).filter isKept = s := by
    have hsame : s.filter isKept = s := List.filter_eq_self.mpr (isKept_literal hliteral)
    rw [List.filter_append, List.filter_append, filter_isKept_blanks hleft,
      filter_isKept_eq_nil hright, hsame, List.append_nil, List.nil_append]
  rw [hfilter]
  exact hliteral.stands

end IsNumber

/-! ## Sums -/

/-- A number behind signs is one more operand, and of its signs the last one counts. -/
theorem IsSigned.operandsBehind (h : IsSigned odd negative t y) : ∃ u, IsNumber u y ∧
    ∀ minus s, operandsBehind minus (s ++ t) = operandsBehind minus s ++ [(negative, u)] := by
  induction h with
  | @sign t y negative h =>
    refine ⟨t, h, fun minus s => ?_⟩
    rw [operandsBehind_sign, h.operandsBehind]
  | more minus' hblanks _ ih =>
    obtain ⟨u, hu, hoperands⟩ := ih
    refine ⟨u, hu, fun minus s => ?_⟩
    rw [operandsBehind_sign, hoperands, operandsBehind_blanks minus' hblanks, List.nil_append]

theorem addOperands_append (total : Float) (left right : List (Bool × Text)) :
    addOperands total (left ++ right) =
      addOperands total left >>= fun x => addOperands x right := by
  induction left generalizing total with
  | nil => rfl
  | cons o left ih =>
    obtain ⟨negative, s⟩ := o
    rw [List.cons_append, addOperands, addOperands]
    cases readOperand s with
    | found x => exact ih _
    | nothing => rfl
    | broken e => rfl

theorem addOperands_number (total : Float) (negative : Bool) (h : IsNumber s x) :
    addOperands total [(negative, s)] = .found (total + applySign negative x) := by
  rw [addOperands, h.readOperand]
  rfl

theorem IsSigned.isNaN (h : IsSigned odd negative s x) : x.isNaN = false := by
  obtain ⟨u, hu, -⟩ := h.operandsBehind
  exact hu.isNaN

/-- A base sum and an expression have the same value, up to the sign of zero. -/
theorem IsSum.plainTotal (h : IsSum s x) :
    ∃ total, plainTotal s = .found total ∧ plainZero total = plainZero x := by
  induction h with
  | @number s x h =>
    refine ⟨0 + x, ?_, Expression.plainZero_zero_add h.isNaN⟩
    exact (congrArg _ (h.operandsBehind false)).trans (addOperands_number 0 false h)
  | @signed blanks s x negative hblanks h =>
    obtain ⟨u, hu, hoperands⟩ := h.operandsBehind
    have hone : operandsBehind false (blanks ++ s) = [(negative, u)] := by
      rw [hoperands, operandsBehind_blanks false hblanks, List.nil_append]
    have hnumber := Expression.isNaN_applySign negative hu.isNaN
    refine ⟨0 + applySign negative x, ?_, Expression.plainZero_zero_add hnumber⟩
    exact (congrArg _ hone).trans (addOperands_number 0 negative hu)
  | @more s t x y negative _ h ih =>
    obtain ⟨total, htotal, hsame⟩ := ih
    obtain ⟨u, hu, hoperands⟩ := h.operandsBehind
    refine ⟨total + applySign negative y, ?_, ?_⟩
    · have hmore : operands (s ++ t) = operands s ++ [(negative, u)] := hoperands false s
      rw [Query.plainTotal] at htotal ⊢
      rw [hmore, addOperands_append, htotal]
      exact addOperands_number total negative hu
    · rw [Expression.add_applySign x negative hu.isNaN, ← Expression.plainZero_add, hsame,
        Expression.plainZero_add]

theorem isKept_signChar (negative : Bool) : isKept (signChar negative) = true :=
  isKept_of_isLiteralChar (isLiteralChar_signChar negative)

theorem stands_sign {depth : ℕ} (negative : Bool) (h : Stands .factor s (some x) depth) :
    Stands .factor (signChar negative :: s) (some (applySign negative x)) (depth + 1) := by
  cases negative with
  | true => exact h.minus
  | false => exact h.plus

/-- The first sign of a number may be an operator, and all of them count. -/
theorem IsSigned.stands (h : IsSigned odd negative s x) : ∃ minus t y depth,
    s.filter isKept = signChar minus :: t ∧ Stands .factor t (some y) depth ∧ y.isNaN = false ∧
      applySign minus y = applySign odd x := by
  induction h with
  | @sign s x negative h =>
    exact ⟨negative, s.filter isKept, x, 0, List.filter_cons_of_pos (isKept_signChar negative),
      h.stands, h.isNaN, rfl⟩
  | @more odd negative blanks s x minus hblanks h ih =>
    obtain ⟨minus', t, y, depth, hfilter, hstands, hy, hsame⟩ := ih
    refine ⟨minus, signChar minus' :: t, applySign odd x, depth + 1, ?_, ?_,
      Expression.isNaN_applySign odd h.isNaN, Expression.applySign_applySign minus odd h.isNaN⟩
    · rw [List.filter_cons_of_pos (isKept_signChar minus), List.filter_append,
        filter_isKept_blanks hblanks, List.nil_append, hfilter]
    · rw [← hsame]
      exact stands_sign minus' hstands

/-- As an expression, a sum stands for its value. -/
theorem IsSum.stands (h : IsSum s x) :
    ∃ depth, Stands .sum (s.filter isKept) (some x) depth := by
  induction h with
  | number h => exact ⟨0, h.stands.lower (Nat.zero_le _)⟩
  | @signed blanks s x negative hblanks h =>
    obtain ⟨minus, t, y, depth, hfilter, hstands, -, hsame⟩ := h.stands
    refine ⟨depth + 1, ?_⟩
    rw [List.filter_append, filter_isKept_blanks hblanks, List.nil_append, hfilter, ← hsame]
    exact (stands_sign minus hstands).lower (Nat.zero_le _)
  | @more s t x y negative _ hsigned ih =>
    obtain ⟨depth, hleft⟩ := ih
    obtain ⟨minus, u, z, depth', hfilter, hstands, hz, hsame⟩ := hsigned.stands
    have hright : Stands .product u (some z) depth' := hstands.lower (by decide)
    refine ⟨max depth depth', ?_⟩
    rw [List.filter_append, hfilter, Expression.add_applySign x negative hsigned.isNaN, ← hsame,
      ← Expression.add_applySign x minus hz]
    cases minus with
    | true => exact Stands.operation (o := .minus) hleft hright
    | false => exact Stands.operation (o := .plus) hleft hright

/-! ## Sums times a whole number -/

/-- A group is read up to the first closing parenthesis. -/
theorem fitsOnly_group {inside : Text} (hne : inside ≠ []) (hinside : ')' ∉ inside) (rest : Text) :
    FitsOnly group ('(' :: (inside ++ ')' :: rest)) inside rest := by
  have hinside' : ∀ c ∈ inside, isInside c = true := by
    intro c hc
    refine decide_eq_true ?_
    rintro rfl
    exact hinside hc
  exact (fitsOnly_char _ _).bind ((fitsOnly_run1 hne hinside' (stopsBefore_cons.mpr rfl)).bind
    ((fitsOnly_char _ _).bind (fitsOnly_pure _ _)))

/-- A group in parentheses is read with the number that it is multiplied by. -/
theorem groupTimes_read? {inside left right count ending : Text} (hne : inside ≠ [])
    (hinside : ')' ∉ inside) (hleft : ∀ c ∈ left, Text.isBlank c = true)
    (hright : ∀ c ∈ right, Text.isBlank c = true) (hcount : count ≠ [])
    (hdigits : ∀ c ∈ count, Text.isDigit c = true) (hending : ending = [] ∨ ending = ['\n']) :
    groupTimes.read?
        ('(' :: (inside ++ ')' :: (left ++ '*' :: (right ++ (count ++ ending))))) =
      some (inside, count) := by
  have hstop : StopsBefore Text.isBlank (count ++ ending) := by
    obtain ⟨c, t, rfl⟩ := List.exists_cons_of_ne_nil hcount
    exact Text.isBlank_of_isDigit (hdigits c List.mem_cons_self)
  have htimes : FitsOnly timesSign (left ++ '*' :: (right ++ (count ++ ending))) ()
      (count ++ ending) :=
    (fitsOnly_run hleft (stopsBefore_cons.mpr rfl)).bind ((fitsOnly_char _ _).bind
      ((fitsOnly_run hright hstop).bind (fitsOnly_pure _ _)))
  have hend : StopsBefore Text.isDigit ending := by
    rcases hending with rfl | rfl
    · rfl
    · rfl
  have hall : FitsOnly groupTimes _ (inside, count) ending :=
    (fitsOnly_group hne hinside _).bind (htimes.bind ((fitsOnly_run1 hcount hdigits hend).bind
      ((fitsOnly_atEnd hending).bind (fitsOnly_pure _ _))))
  exact hall.read?

theorem IsSigned.ne_nil (h : IsSigned odd negative s x) : s ≠ [] := by
  cases h with
  | sign _ _ => exact List.cons_ne_nil _ _
  | more _ _ _ => exact List.cons_ne_nil _ _

theorem IsSum.ne_nil (h : IsSum s x) : s ≠ [] := by
  cases h with
  | number h =>
    rintro rfl
    cases h.not_blank
  | signed _ h => exact List.append_ne_nil_of_right_ne_nil _ h.ne_nil
  | more _ h => exact List.append_ne_nil_of_right_ne_nil _ h.ne_nil

namespace IsCommon

/-- A base sum has the value of the expression, up to the sign of zero. -/
theorem baseTotal (h : IsCommon s x) (hx : x.isFinite = true) :
    ∃ total, baseTotal s = .found total ∧ plainZero total = plainZero x := by
  cases h with
  | sum h =>
    have hhead : s.head? ≠ some '(' :=
      fun hhead => h.no_parenthesis.1 (List.mem_of_head? hhead)
    rw [baseTotal_of_no_group hhead]
    exact h.plainTotal
  | @times s left right ending x count h hleft hright hending =>
    obtain ⟨total, htotal, hsame⟩ := h.plainTotal
    have hfinite : total.isFinite = true := by
      apply Expression.isFinite_of_plainZero
      rw [hsame]
      exact Expression.isFinite_plainZero (Expression.isFinite_of_mul hx)
    have hread := groupTimes_read? h.ne_nil h.no_parenthesis.2 hleft hright count.ne_nil
      count.areDigits.textual hending
    refine ⟨plainZero total * countValue count.text, ?_, ?_⟩
    · simp only [Query.baseTotal, hread, htotal, Expression.leadingNumber?_numberText hfinite,
        Attempt.ofOption_some_bind, Attempt.found_bind]
      rfl
    · rw [hsame, Expression.plainZero_mul]

/-- As an expression, what both have in common stands for its value. -/
theorem stands (h : IsCommon s x) :
    ∃ depth, Stands .sum (s.filter isKept) (some x) depth := by
  cases h with
  | sum h => exact h.stands
  | @times s left right ending x count h hleft hright hending =>
    obtain ⟨depth, hstands⟩ := h.stands
    have hcount : count.text.filter isKept = count.text :=
      List.filter_eq_self.mpr fun c hc => Session.isKept_of_isDigit (count.areDigits c hc)
    have hend : ending.filter isKept = [] := by
      rcases hending with rfl | rfl <;> rfl
    have hfilter : ('(' :: (s ++ ')' :: (left ++ '*' :: (right ++ (count.text ++ ending))))).filter
        isKept = ('(' :: s.filter isKept ++ [')']) ++ (['*'] ++ count.text) := by
      rw [List.filter_cons_of_pos rfl, List.filter_append, List.filter_cons_of_pos rfl,
        List.filter_append, filter_isKept_blanks hleft, List.nil_append,
        List.filter_cons_of_pos rfl, List.filter_append, filter_isKept_blanks hright,
        List.nil_append, List.filter_append, hcount, hend, List.append_nil, List.append_assoc]
      rfl
    have hnumber : Stands .factor count.text (some (countValue count.text)) 0 := by
      have hspelled := Session.stands_spelling ⟨count, none, none⟩
      have htext : Expression.Spelling.text ⟨count, none, none⟩ = count.text := List.append_nil _
      rwa [htext] at hspelled
    have hgroup : Stands .product ('(' :: s.filter isKept ++ [')']) (some x) (depth + 4) :=
      hstands.group.lower (by decide)
    have hright : Stands .power count.text (some (countValue count.text)) 0 :=
      hnumber.lower (by decide)
    rw [hfilter]
    exact ⟨max (depth + 4) 0, (Stands.operation (o := .times) hgroup hright).lower (by decide)⟩

/-- Where the expression has a value at all, its signs and groups are not too deep, and this is the
value. -/
theorem valueOf_eq (h : IsCommon s x) {u : Float} (hu : valueOf standardTable (prepare s) = .ok u) :
    u = x := by
  obtain ⟨depth, e, hvalue, -, hderives⟩ := h.stands
  have htree := hderives [] rfl
  rw [List.append_nil] at htree
  have hprepare : prepare s = s.filter isKept := Expression.replaceDegrees_of_derives htree _
  obtain ⟨e', ⟨htree', -⟩, hvalue'⟩ := Expression.denotes_of_valueOf hu
  rw [hprepare] at htree'
  rw [htree'.value?_unique htree, hvalue] at hvalue'
  exact (Option.some.inj hvalue').symm

end IsCommon

/-! ## The agreement -/

theorem isFinite_of_settle {v : Float} (h : settle x = .ok v) : x.isFinite = true := by
  rw [settle] at h
  split at h
  · cases h
  next hfinite => simpa using hfinite

/-- Where a base sum and an expression have a text in common and the expression has a value, what is
shown in a base is that value before it is settled, and all of the text counts.  If it is an integer
up to `2 ^ 53`, a numeral of the integer is shown. -/
theorem baseSum_of_evaluate {r : Radix} {base : Text} {u v : Float}
    (hbase : Radix.ofName? base = some r) (hs : IsCommon s u) (hv : evaluate s = .ok v) :
    valueOf standardTable (prepare s) = .ok u ∧ settle u = .ok v ∧
      baseSum s base = .found (r.text u) ∧
      ∀ n : ℤ, n.natAbs ≤ 2 ^ 53 → exactValue u = n →
        ∃ digits, r.text u = opening r ++ signed (decide (n < 0)) digits ∧
          IsNumeral r digits [] |(n : ℚ)| := by
  obtain ⟨hvalue, hsettle⟩ : valueOf standardTable (prepare s) = .ok u ∧ settle u = .ok v := by
    rw [evaluate, Expression.evaluateWith] at hv
    cases hvalue : valueOf standardTable (prepare s) with
    | error err =>
      rw [hvalue] at hv
      cases hv
    | ok u' =>
      rw [hvalue] at hv
      obtain rfl := hs.valueOf_eq hvalue
      exact ⟨rfl, hv⟩
  have hfinite := isFinite_of_settle hsettle
  obtain ⟨total, htotal, hsame⟩ := hs.baseTotal hfinite
  refine ⟨hvalue, hsettle, ?_, fun n hn hint => ?_⟩
  · rw [baseSum, htotal, hbase, ← Expression.text_plainZero r u, ← hsame,
      Expression.text_plainZero]
    rfl
  · have hplain : plainZero u = Number.ofInt n := by
      rw [Expression.plainZero_eq_nearestTo hfinite, hint, Number.ofInt_eq]
    rw [← Expression.text_plainZero, hplain]
    exact exists_numeral_of_int r hn

theorem exactValue_of_int {n : ℤ} (hn : n.natAbs ≤ 2 ^ 53) : exactValue (Number.ofInt n) = n := by
  rw [Number.ofInt_eq]
  exact (Number.representable_int hn).2

/-- A sum in parentheses times four, with two signs in front of a number that ends in a point. -/
theorem baseSum_of_evaluate_group : Radix.ofName? "hex".toList = some .hex ∧
    IsCommon "(2 +- 3.)*4".toList ((2 - 3) * 4) ∧ evaluate "(2 +- 3.)*4".toList = .ok (-4) ∧
    ∃ digits, baseSum "(2 +- 3.)*4".toList "hex".toList = .found ("0x-".toList ++ digits) ∧
      IsNumeral .hex digits [] 4 := by
  have hbase : Radix.ofName? "hex".toList = some .hex := by decide
  have hempty : ∀ c ∈ ([] : Text), Text.isBlank c = true := List.forall_mem_nil _
  have hblank : ∀ c ∈ [' '], Text.isBlank c = true := List.forall_mem_singleton.mpr (by decide)
  have hdigit {s : Text} (hs : s.all Char.isDigit = true) : Expression.AreDigits s :=
    List.all_eq_true.mp hs
  have htwo : IsNumber ['2', ' '] 2 := by
    have hvalue : Number.Numeral.value ⟨['2'], [], 0⟩ = 2 := by decide +kernel
    rw [← hvalue]
    have hliteral := (Expression.Mantissa.whole (List.cons_ne_nil '2' []) (hdigit rfl)).literal
    exact @IsNumber.intro [] ['2'] [' '] _ hempty hliteral
      (List.forall_mem_singleton.mpr (by decide)) (List.forall_mem_singleton.mpr (by decide))
  have hthree : IsNumber [' ', '3', '.'] 3 := by
    have hvalue : Number.Numeral.value ⟨['3'], [], 0⟩ = 3 := by decide +kernel
    rw [← hvalue]
    have hliteral := (Expression.Mantissa.pointed (.inl (List.cons_ne_nil '3' [])) (hdigit rfl)
      (hdigit rfl : Expression.AreDigits [])).literal
    exact @IsNumber.intro [' '] ['3', '.'] [] _ hblank hliteral
      (List.forall_iff_forall_mem.mp (by decide)) nofun
  have hcommon : IsCommon "(2 +- 3.)*4".toList ((2 - 3) * 4) := by
    have hfour : countValue ['4'] = 4 := by decide +kernel
    have htimes := IsCommon.times ⟨['4'], List.cons_ne_nil _ _, hdigit rfl⟩
      (.more (.number htwo) (.more false hempty (.sign true hthree))) hempty hempty (.inl rfl)
    rwa [hfour] at htimes
  have hv : evaluate "(2 +- 3.)*4".toList = .ok (-4) := by decide +kernel
  obtain ⟨-, -, hshown, hint⟩ := baseSum_of_evaluate hbase hcommon hv
  have hminus : ((2 : Float) - 3) * 4 = Number.ofInt (-4) := by decide +kernel
  obtain ⟨digits, htext, hnumeral⟩ := hint (-4) (by decide) (by
    rw [hminus]
    exact exactValue_of_int (by decide))
  refine ⟨hbase, hcommon, hv, digits, ?_, ?_⟩
  · rw [hshown, htext]
    rfl
  · have habs : |((-4 : ℤ) : ℚ)| = 4 := by norm_num
    rwa [habs] at hnumeral

/-- The second factor of a product does not count, and neither does what stands behind a blank or a
sign within a number, nor any sign but the last one in front of a number; and a value that becomes
an integer only when it is settled is shown as it is. -/
theorem baseSum_product_lost :
    evaluate "2*3".toList = .ok 6 ∧ exactValue 6 = 6 ∧
      baseSum "2*3".toList "hex".toList = .found "0x2".toList ∧
      (¬∃ digits, "0x2".toList = opening .hex ++ signed false digits ∧
        IsNumeral .hex digits [] 6) ∧
    evaluate "1 000".toList = .ok 1000 ∧
      baseSum "1 000".toList "hex".toList = .found "0x1".toList ∧
    evaluate "1e+2".toList = .ok 100 ∧
      baseSum "1e+2".toList "hex".toList = .found "0x3".toList ∧
    evaluate "2--3".toList = .ok 5 ∧
      baseSum "2--3".toList "hex".toList = .found "0x-1".toList ∧
    evaluate "0.7+0.2+0.1".toList = .ok 1 ∧
      baseSum "0.7+0.2+0.1".toList "hex".toList = .found "0x0.FFFFFFFFFFFFF8".toList := by
  have hsix : (6 : Float) = Number.ofInt 6 := by decide +kernel
  have hvalue : exactValue 6 = (6 : ℤ) := by
    rw [hsix]
    exact exactValue_of_int (by decide)
  refine ⟨by decide +kernel, hvalue, by decide +kernel, ?_, by decide +kernel, by decide +kernel,
    by decide +kernel, by decide +kernel, by decide +kernel, by decide +kernel, by decide +kernel,
    by decide +kernel⟩
  rintro ⟨digits, htext, hnumeral⟩
  obtain rfl : digits = ['2'] := by
    have hsame : "0x2".toList = '0' :: 'x' :: digits := htext
    simpa using hsame.symm
  have hnumber := hnumeral.value
  have htwo : numeralValue 16 ['2'] = 2 := by decide
  have hnone : numeralValue 16 [] = 0 := by decide
  have hbase : Radix.hex.base = 16 := rfl
  rw [hbase, htwo, hnone] at hnumber
  norm_num at hnumber

end DeskCalc.Query

import DeskCalc.Expression.Degrees
import DeskCalc.Proofs.Expression.Literal
import DeskCalc.Proofs.Text.Alphabet
import Mathlib.Data.List.Chain

/-!
# Expressions without degrees

The word for degrees is looked for directly behind digits.  In a text of the grammar no such word
stands there, because what follows a number is an operator, a closing parenthesis or the end, and
names are made of letters.  Texts of the grammar are therefore left as they are.
-/

namespace DeskCalc.Expression

open Text (StopsBefore stopsBefore_cons)

/-- No digit has a `d` behind it. -/
def DegreeFree (s : Text) : Prop :=
  s.IsChain fun a b => Text.isDigit a = true → b ≠ 'd'

variable {s run rest : Text}

/-! ## Looking for degrees -/

theorem afterDegrees?_eq_none (h : StopsBefore (· == 'd') s) : afterDegrees? s = none := by
  cases s with
  | nil => rfl
  | cons c s =>
    have hc : ('d' == c) = false := by
      rw [stopsBefore_cons, beq_eq_false_iff_ne] at h
      exact beq_eq_false_iff_ne.mpr h.symm
    simp [afterDegrees?, List.isPrefixOf, hc]

/-- Behind digits no `d` follows. -/
theorem DegreeFree.stopsBefore (h : DegreeFree (run ++ rest)) (hne : run ≠ [])
    (hrun : ∀ c ∈ run, Text.isDigit c = true) : StopsBefore (· == 'd') rest := by
  cases rest with
  | nil => rfl
  | cons c rest =>
    have hlast := (List.isChain_append.mp h).2.2 _
      (List.getLast?_eq_some_getLast hne) c rfl (hrun _ (List.getLast_mem hne))
    simpa [stopsBefore_cons] using hlast

theorem fractionAndDegrees?_eq_none (hrest : DegreeFree rest)
    (hstop : StopsBefore (· == 'd') rest) : fractionAndDegrees? rest = none := by
  simp only [fractionAndDegrees?, afterDegrees?_eq_none hstop]
  split
  next t =>
    split
    · rfl
    next hdigits =>
      have hsplit : t.takeWhile Text.isDigit ++ t.dropWhile Text.isDigit = t :=
        List.takeWhile_append_dropWhile
      have hne : t.takeWhile Text.isDigit ≠ [] := by simpa using hdigits
      have hfree : DegreeFree (t.takeWhile Text.isDigit ++ t.dropWhile Text.isDigit) := by
        rw [hsplit]
        exact (List.isChain_cons.mp hrest).2
      rw [afterDegrees?_eq_none (hfree.stopsBefore hne fun c hc => List.mem_takeWhile_imp hc)]
      rfl
  · rfl

/-- A text in which no digit has a `d` behind it is left as it is. -/
theorem replaceDegrees_eq (fuel : Nat) (h : DegreeFree s) : replaceDegrees fuel s = s := by
  induction fuel generalizing s with
  | zero => rfl
  | succ fuel ih =>
    cases s with
    | nil => rfl
    | cons c s =>
      rw [replaceDegrees]
      split
      next hc =>
        have hsplit : c :: s = (c :: s.takeWhile Text.isDigit) ++ s.dropWhile Text.isDigit := by
          rw [List.cons_append, List.takeWhile_append_dropWhile]
        have hrun : ∀ d ∈ c :: s.takeWhile Text.isDigit, Text.isDigit d = true :=
          List.forall_mem_cons.mpr ⟨hc, fun d hd => List.mem_takeWhile_imp hd⟩
        rw [hsplit] at h
        have hafter : DegreeFree (s.dropWhile Text.isDigit) := (List.isChain_append.mp h).2.1
        have hnone := fractionAndDegrees?_eq_none hafter (h.stopsBefore (List.cons_ne_nil _ _) hrun)
        simp only [hnone]
        rw [ih hafter, ← hsplit]
      · rw [ih (List.isChain_cons.mp h).2]

/-! ## Texts of the grammar -/

/-- In front of a text that does not begin with a `d` there may be any text that has none. -/
theorem DegreeFree.append (hrun : 'd' ∉ run) (hrest : DegreeFree rest)
    (hstop : StopsBefore (· == 'd') rest) : DegreeFree (run ++ rest) := by
  induction run with
  | nil => exact hrest
  | cons c run ih =>
    have hrun' : 'd' ∉ run := fun hd => hrun (List.mem_cons_of_mem c hd)
    refine List.isChain_cons.mpr ⟨fun d hd _ => ?_, ih hrun'⟩
    cases run with
    | nil =>
      cases rest with
      | nil => cases hd
      | cons e rest =>
        cases hd
        simpa [stopsBefore_cons] using hstop
    | cons e run =>
      cases hd
      rintro rfl
      exact hrun' List.mem_cons_self

/-- Where there are no digits nothing is looked for. -/
theorem DegreeFree.append_of_not_digit (hrun : ∀ c ∈ run, Text.isDigit c = false)
    (hrest : DegreeFree rest) : DegreeFree (run ++ rest) := by
  induction run with
  | nil => exact hrest
  | cons c run ih =>
    have hrest' := ih fun e he => hrun e (List.mem_cons_of_mem c he)
    refine List.isChain_cons.mpr ⟨fun d _ hc => ?_, hrest'⟩
    rw [hrun c List.mem_cons_self] at hc
    cases hc

theorem isDigit_of_isLetter {c : Char} (h : Text.isLetter c = true) : Text.isDigit c = false := by
  have hranges := Text.isLetter_iff.mp h
  have hsmall : c.toNat < 128 := by omega
  have hdigit : c.isDigit = false := by
    rw [Bool.eq_false_iff, Ne, Text.basicDigit_iff]
    omega
  simp [Text.isDigit, Text.digitValue?, hsmall, hdigit]

/-- The characters of literals. -/
def isLiteralChar (c : Char) : Bool :=
  isNumberChar c || "eE+-".toList.contains c

theorem isLiteralChar_of_isNumberChar {c : Char} (h : isNumberChar c = true) :
    isLiteralChar c = true := by
  rw [isLiteralChar, h, Bool.true_or]

theorem Exponent.isLiteralChar {power : Int} (h : Exponent power s) :
    ∀ c ∈ s, isLiteralChar c = true := by
  have hdigits {digits : Text} (hdigits : AreDigits digits) :
      ∀ c ∈ digits, Expression.isLiteralChar c = true :=
    fun c hc => isLiteralChar_of_isNumberChar (isNumberChar_of_isDigit (hdigits c hc))
  have hmark {c : Char} (hc : c = 'e' ∨ c = 'E') : Expression.isLiteralChar c = true := by
    rcases hc with rfl | rfl <;> decide
  cases h with
  | bare hc _ hall => exact List.forall_mem_cons.mpr ⟨hmark hc, hdigits hall⟩
  | plus hc _ hall =>
    exact List.forall_mem_cons.mpr ⟨hmark hc, List.forall_mem_cons.mpr ⟨by decide, hdigits hall⟩⟩
  | minus hc _ hall =>
    exact List.forall_mem_cons.mpr ⟨hmark hc, List.forall_mem_cons.mpr ⟨by decide, hdigits hall⟩⟩

/-- A number is a text of such characters. -/
theorem Literal.exists_run {n : Number.Numeral} (h : Literal n s rest) :
    ∃ run, s = run ++ rest ∧ ∀ c ∈ run, isLiteralChar c = true := by
  cases h with
  | plain hbody _ _ =>
    exact ⟨_, rfl, fun c hc => isLiteralChar_of_isNumberChar (hbody.isNumberChar c hc)⟩
  | scientific hbody hpower _ =>
    refine ⟨_, (List.append_assoc _ _ _).symm, List.forall_mem_append.mpr ⟨?_, ?_⟩⟩
    · exact fun c hc => isLiteralChar_of_isNumberChar (hbody.isNumberChar c hc)
    · exact hpower.isLiteralChar

theorem stopsBefore_sign (o : Operator) (t : Text) :
    StopsBefore (· == 'd') (o.sign ++ t) ∧ ∀ c ∈ o.sign, Text.isDigit c = false := by
  have hsign : o.sign.all (fun c => !Text.isDigit c) = true := by cases o <;> decide
  refine ⟨by cases o <;> rfl, fun c hc => ?_⟩
  simpa using List.all_eq_true.mp hsign c hc

/-- What a text derives adds no degrees to what follows. -/
theorem Derives.degreeFree {table : FunctionTable} {level : Level} {e : Tree}
    (h : Derives table level e s rest) (hrest : DegreeFree rest)
    (hstop : StopsBefore (· == 'd') rest) : DegreeFree s := by
  have hsign {c : Char} (hc : Text.isDigit c = false) {t : Text} (ht : DegreeFree t) :
      DegreeFree (c :: t) :=
    DegreeFree.append_of_not_digit (List.forall_mem_singleton.mpr hc) ht
  induction h with
  | number hliteral =>
    obtain ⟨run, rfl, hrun⟩ := hliteral.exists_run
    have hd : 'd' ∉ run := fun hd => by cases hrun 'd' hd
    exact hrest.append hd hstop
  | group _ ih => exact hsign (by decide) (ih (hsign (by decide) hrest) rfl)
  | minus _ ih => exact hsign (by decide) (ih hrest hstop)
  | plus _ ih => exact hsign (by decide) (ih hrest hstop)
  | call _ hname _ _ ih =>
    exact DegreeFree.append_of_not_digit (fun c hc => isDigit_of_isLetter (hname c hc))
      (hsign (by decide) (ih (hsign (by decide) hrest) rfl))
  | operand _ ih => exact ih hrest hstop
  | @operation o _ _ _ t _ _ _ ihleft ihright =>
    obtain ⟨hhead, hdigits⟩ := stopsBefore_sign o t
    exact ihleft (DegreeFree.append_of_not_digit hdigits (ihright hrest hstop)) hhead

theorem replaceDegrees_of_derives {table : FunctionTable} {level : Level} {e : Tree}
    (h : Derives table level e s []) (fuel : Nat) : replaceDegrees fuel s = s :=
  replaceDegrees_eq fuel (h.degreeFree .nil rfl)

end DeskCalc.Expression

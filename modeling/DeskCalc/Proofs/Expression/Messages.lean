import DeskCalc.Proofs.Expression.Reading
import DeskCalc.Proofs.Number.Texts
import DeskCalc.Proofs.Text.Storable

/-!
# Messages of errors

An error quotes a sign of the expression, a literal or a name.  If the marks of an expression stand
where signs begin, then so do those of whatever is left of it by reading, and the message of an
error can be stored.
-/

namespace DeskCalc.Expression

open Text (mark Aligned)

/-! ## What errors quote -/

/-- What an error quotes can be stored. -/
def Error.Quotable : Error → Prop
  | unexpected rest => Aligned rest
  | badNumber literal => mark ∉ literal
  | unknownFunction name => mark ∉ name
  | _ => True

/-- The text that is left has its marks where signs begin, or the error can be stored. -/
def Leaves : Except Error (Float × Text) → Prop
  | .ok (_, rest) => Aligned rest
  | .error e => e.Quotable

/-- The reader keeps the marks where signs begin. -/
def KeepsSigns (read : Reader) : Prop :=
  ∀ s, Aligned s → Leaves (read s)

theorem leaves_bind {r : Except Error (Float × Text)} {f : Float × Text → Except Error (Float × Text)}
    (hr : Leaves r) (hf : ∀ x rest, Aligned rest → Leaves (f (x, rest))) : Leaves (r >>= f) := by
  cases r with
  | error e => exact hr
  | ok found => exact hf found.1 found.2 hr

/-! ## Numbers -/

theorem low_isNumberChar : Text.Low isNumberChar := by
  intro c hc
  rw [isNumberChar, Bool.or_eq_true, beq_iff_eq] at hc
  rcases hc with hdigit | rfl
  · exact Text.low_isAlphanum c (by simp [Char.isAlphanum, hdigit])
  · decide

theorem low_isLetter : Text.Low Text.isLetter :=
  Text.low_isAlphanum.mono fun c hc => by
    rw [Text.isLetter] at hc
    simp [Char.isAlphanum, hc]

theorem AreDigits.mark_not_mem {s : Text} (h : AreDigits s) : mark ∉ s :=
  low_isNumberChar.mark_not_mem fun c hc => isNumberChar_of_isDigit (h c hc)

theorem Exponent.mark_not_mem {power : Int} {s : Text} (h : Exponent power s) : mark ∉ s := by
  have hmark {c : Char} (hc : c = 'e' ∨ c = 'E') : mark ≠ c := by
    rcases hc with rfl | rfl <;> decide
  have hplus : mark ≠ '+' := by decide
  have hminus : mark ≠ '-' := by decide
  cases h with
  | bare hc _ hdigits => simp [hmark hc, hdigits.mark_not_mem]
  | plus hc _ hdigits => simp [hmark hc, hplus, hdigits.mark_not_mem]
  | minus hc _ hdigits => simp [hmark hc, hminus, hdigits.mark_not_mem]

/-- What is tried as a literal holds no mark, and the text goes on behind it. -/
theorem exists_literal (s : Text) :
    ∃ rest, s = s.takeWhile isNumberChar ++ exponentText (s.dropWhile isNumberChar) ++ rest ∧
      mark ∉ s.takeWhile isNumberChar ++ exponentText (s.dropWhile isNumberChar) := by
  have hbody : mark ∉ s.takeWhile isNumberChar :=
    low_isNumberChar.mark_not_mem fun c hc => List.mem_takeWhile_imp hc
  have hsplit : s.takeWhile isNumberChar ++ s.dropWhile isNumberChar = s :=
    List.takeWhile_append_dropWhile
  by_cases hnone : exponentText (s.dropWhile isNumberChar) = []
  · refine ⟨s.dropWhile isNumberChar, ?_, ?_⟩
    · rw [hnone, List.append_nil, hsplit]
    · rwa [hnone, List.append_nil]
  · obtain ⟨power, rest, hwritten, heq, -⟩ := exponent_of_exponentText hnone
    refine ⟨rest, ?_, ?_⟩
    · rw [List.append_assoc, ← heq, hsplit]
    · rw [List.mem_append, not_or]
      exact ⟨hbody, hwritten.mark_not_mem⟩

theorem keepsSigns_readNumber : KeepsSigns readNumber := by
  intro s hs
  obtain ⟨rest, hsplit, hliteral⟩ := exists_literal s
  rw [readNumber]
  generalize s.takeWhile isNumberChar ++ exponentText (s.dropWhile isNumberChar) = literal at *
  subst hsplit
  split
  · rw [List.drop_left]
    exact hs.of_append hliteral
  · exact hliteral

/-! ## Chains of operators -/

theorem mark_not_mem_sign (o : Operator) : mark ∉ o.sign := by
  cases o <;> decide

section Chains

variable {level : Level} {operand : Reader}

theorem leaves_foldChain (h : KeepsSigns operand) {s : Text} (hs : Aligned s) (n : Nat)
    (x : Float) : Leaves (foldChain level.operators operand n x s) := by
  induction n generalizing x s with
  | zero => exact hs
  | succ n ih =>
    rw [foldChain]
    split
    · exact hs
    next operation rest hoperator =>
      obtain ⟨o, -, rfl, rfl⟩ := operator_of_operators hoperator
      refine leaves_bind (h rest (hs.of_append (mark_not_mem_sign o))) ?_
      intro y rest hrest
      simp only
      cases hvalue : o.operation x y with
      | ok z => exact ih hrest z
      | error e =>
        obtain ⟨rfl, -⟩ := Operator.operation_eq_error hvalue
        exact trivial

theorem keepsSigns_chain (h : KeepsSigns operand) : KeepsSigns (chain level.operators operand) :=
  fun s hs => leaves_bind (h s hs) fun x _ hrest => leaves_foldChain h hrest _ x

end Chains

theorem keepsSigns_sumOf {read : Reader} (h : KeepsSigns read) : KeepsSigns (sumOf read) :=
  @keepsSigns_chain .sum _ (@keepsSigns_chain .product _ (@keepsSigns_chain .power _ h))

/-! ## Factors -/

theorem leaves_closing {e : Error} (he : e.Quotable) (x : Float) {s : Text}
    (hs : Aligned s) : Leaves (closing e (x, s)) := by
  unfold closing
  split
  next heq =>
    obtain rfl : s = ')' :: _ := heq
    exact hs.of_cons (by decide)
  · exact he

theorem leaves_calling {table : FunctionTable} {name : Text}
    (hname : ∀ c ∈ name, Text.isLetter c = true) (x : Float) {s : Text} (hs : Aligned s) :
    Leaves (calling table name (x, s)) := by
  unfold calling
  split
  next heq =>
    obtain rfl : s = ')' :: _ := heq
    split
    · exact hs.of_cons (by decide)
    · exact low_isLetter.mark_not_mem hname
  · exact trivial

/-- A factor, and everything inside of it, keeps the marks where signs begin. -/
theorem keepsSigns_factor (table : FunctionTable) (room : Nat) :
    KeepsSigns (factor table room) := by
  induction room using Nat.strong_induction_on with
  | _ room ih =>
    intro s hs
    cases room, s using factor_cases with
    | deep hdeep =>
      rw [hdeep]
      exact trivial
    | group s =>
      rw [factor_group]
      exact leaves_bind (keepsSigns_sumOf (ih _ (by omega)) s (hs.of_cons (by decide)))
        fun x _ hrest => leaves_closing (e := .unclosedGroup) trivial x hrest
    | @minus m s =>
      rw [factor_minus]
      have hleft := ih m (by omega) s (hs.of_cons (by decide))
      cases hread : factor table m s with
      | error e => rwa [hread] at hleft
      | ok found => rwa [hread] at hleft
    | plus s =>
      rw [factor_plus]
      exact ih _ (by omega) s (hs.of_cons (by decide))
    | call hne hname s =>
      rw [factor_call hne hname]
      have hinside := hs.of_append (low_isLetter.mark_not_mem hname)
      exact leaves_bind (keepsSigns_sumOf (ih _ (by omega)) s (hinside.of_cons (by decide)))
        fun x _ hrest => leaves_calling hname x hrest
    | name hname =>
      rw [hname]
      exact trivial
    | number hnumber =>
      rw [hnumber]
      exact keepsSigns_readNumber _ hs
    | other hother =>
      rw [hother]
      exact trivial

/-! ## Preparing -/

theorem aligned_afterDegrees? {s rest : Text} (hs : Aligned s) (h : afterDegrees? s = some rest) :
    Aligned rest := by
  have hdrop {w : Text} (hw : mark ∉ w) (hmatch : w.isPrefixOf s = true) :
      Aligned (s.drop w.length) := by
    obtain ⟨t, rfl⟩ := List.isPrefixOf_iff_prefix.mp hmatch
    rw [List.drop_left]
    exact hs.of_append hw
  unfold afterDegrees? at h
  split at h
  next hmatch =>
    cases h
    exact hdrop (by decide) hmatch
  · split at h
    next hmatch =>
      cases h
      exact hdrop (by decide) hmatch
    · cases h

theorem aligned_fractionAndDegrees? {s fraction rest : Text} (hs : Aligned s)
    (h : fractionAndDegrees? s = some (fraction, rest)) : mark ∉ fraction ∧ Aligned rest := by
  unfold fractionAndDegrees? at h
  split at h
  next hafter =>
    cases h
    exact ⟨List.not_mem_nil, aligned_afterDegrees? hs hafter⟩
  · split at h
    · simp only at h
      split at h
      · cases h
      · obtain ⟨t, ht, heq⟩ := Option.map_eq_some_iff.mp h
        cases heq
        have hpoint : mark ≠ '.' := by decide
        refine ⟨?_, ?_⟩
        · rw [List.mem_cons, not_or]
          exact ⟨hpoint, Text.low_isDigit.mark_not_mem fun c hc => List.mem_takeWhile_imp hc⟩
        · exact aligned_afterDegrees? ((hs.of_cons hpoint).dropWhile Text.low_isDigit) ht
    · cases h

theorem aligned_product {digits fraction rest : Text} (hdigits : mark ∉ digits)
    (hfraction : mark ∉ fraction) (hrest : Aligned rest) :
    Aligned ('(' :: digits ++ fraction ++ '*' :: degreeText ++ ')' :: rest) := by
  have hopen : mark ≠ '(' := by decide
  have htimes : mark ≠ '*' := by decide
  have hdegree : mark ∉ '*' :: degreeText := by
    rw [List.mem_cons, not_or]
    exact ⟨htimes, (Number.isNumberText_numberText _).mark_not_mem⟩
  have hfront : mark ∉ '(' :: digits ++ fraction ++ '*' :: degreeText := by
    rw [List.mem_append, List.mem_append, List.mem_cons, not_or, not_or, not_or]
    exact ⟨⟨⟨hopen, hdigits⟩, hfraction⟩, hdegree⟩
  exact Aligned.append hfront (.char (by decide) hrest)

theorem aligned_replaceDegrees {s : Text} (hs : Aligned s) (fuel : Nat) :
    Aligned (replaceDegrees fuel s) := by
  -- The two characters of a sign take two steps.
  induction fuel using Nat.strong_induction_on generalizing s with
  | _ fuel ih =>
    cases fuel with
    | zero => exact hs
    | succ fuel =>
      cases hs with
      | nil => exact .nil
      | @char c rest hc hrest =>
        rw [replaceDegrees]
        split
        · have hdigits : mark ∉ c :: rest.takeWhile Text.isDigit := by
            rw [List.mem_cons, not_or]
            exact ⟨hc.symm, Text.low_isDigit.mark_not_mem fun c hc => List.mem_takeWhile_imp hc⟩
          have hafter := hrest.dropWhile Text.low_isDigit
          simp only
          split
          next fraction after hdegrees =>
            obtain ⟨hfraction, hleft⟩ := aligned_fractionAndDegrees? hafter hdegrees
            exact aligned_product hdigits hfraction (ih fuel (by omega) hleft)
          · exact Aligned.append hdigits (ih fuel (by omega) hafter)
        · exact .char hc (ih fuel (by omega) hrest)
      | @sign d rest hd hrest =>
        rw [replaceDegrees, if_neg (by rw [Text.low_isDigit.mark]; exact Bool.false_ne_true)]
        cases fuel with
        | zero => exact .sign hd hrest
        | succ fuel =>
          rw [replaceDegrees, if_neg (by rw [Text.low_isDigit.sign hd]; exact Bool.false_ne_true)]
          exact .sign hd (ih fuel (by omega) hrest)

theorem aligned_prepare {s : Text} (hs : Aligned s) : Aligned (prepare s) := by
  have hlow : Text.Low fun c => Text.isBlank c || c == ',' := by
    intro c hc
    rw [Bool.or_eq_true, beq_iff_eq] at hc
    rcases hc with hblank | rfl
    · exact Text.low_isBlank c hblank
    · decide
  exact aligned_replaceDegrees (hs.filter hlow) _

/-! ## Messages -/

theorem quotable_valueOf {table : FunctionTable} {s : Text} {e : Error} (hs : Aligned s)
    (h : valueOf table s = .error e) : e.Quotable := by
  have hleft := keepsSigns_sumOf (keepsSigns_factor table nestingRoom) s hs
  rw [valueOf] at h
  cases hread : sumOf (factor table nestingRoom) s with
  | error err =>
    rw [hread] at h hleft
    cases h
    exact hleft
  | ok found =>
    obtain ⟨x, rest⟩ := found
    rw [hread] at h hleft
    cases rest with
    | nil => cases h
    | cons c rest =>
      cases h
      exact hleft

theorem settle_eq_error {x : Float} {e : Error} (h : settle x = .error e) : e = .notFinite := by
  rw [settle] at h
  split at h
  · cases h
    rfl
  · simp only at h
    split at h
    · cases h
    · cases h

theorem quotable_evaluate {s : Text} {e : Error} (hs : Aligned s) (h : evaluate s = .error e) :
    e.Quotable := by
  rw [evaluate, evaluateWith] at h
  cases hvalue : valueOf standardTable (prepare s) with
  | error err =>
    rw [hvalue] at h
    cases h
    exact quotable_valueOf (aligned_prepare hs) hvalue
  | ok x =>
    rw [hvalue] at h
    obtain rfl := settle_eq_error h
    exact trivial

/-- The message of an error can be stored if what it quotes can. -/
theorem Error.Quotable.storable {e : Error} (h : e.Quotable) : Text.Storable e.message.toList := by
  -- The wording in front of a quotation holds no mark.
  have hquote {wording quoted : String} (hwording : mark ∉ wording.toList)
      (hquoted : Text.Storable quoted.toList) :
      Text.Storable (wording ++ quoted).toList := by
    rw [String.toList_append]
    exact .append hwording hquoted
  cases e with
  | unexpected rest =>
    exact hquote (by decide) (by rw [String.toList_ofList]; exact Text.storable_firstSign h)
  | badNumber literal =>
    exact hquote (by decide) (by rw [String.toList_ofList]; exact Text.storable_of_mark_not_mem h)
  | unknownFunction name =>
    exact hquote (by decide) (by rw [String.toList_ofList]; exact Text.storable_of_mark_not_mem h)
  | unclosedGroup => exact Text.storable_of_mark_not_mem (by decide)
  | noOperand => exact Text.storable_of_mark_not_mem (by decide)
  | noArgument => exact Text.storable_of_mark_not_mem (by decide)
  | unclosedArgument => exact Text.storable_of_mark_not_mem (by decide)
  | tooDeep => exact Text.storable_of_mark_not_mem (by decide)
  | divisionByZero => exact Text.storable_of_mark_not_mem (by decide)
  | notFinite => exact Text.storable_of_mark_not_mem (by decide)

end DeskCalc.Expression

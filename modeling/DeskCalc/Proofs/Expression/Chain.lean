import DeskCalc.Proofs.Expression.Literal

/-!
# Reading chains

A reader reads a level of the grammar if it gives the value of what the grammar derives, and an
error where nothing is derived or a divisor is zero.  A chain whose operands are read so is read so
itself.  The value so far stands for a derivation of all that is read so far, which every operator
extends to the left.
-/

namespace DeskCalc.Expression

open Text (StopsBefore)

/-! ## Operators -/

/-- What the operators of a level are read by. -/
def Level.operators : Level → OperatorReader
  | .sum => additive?
  | .product => multiplicative?
  | .power => exponential?
  | .factor => fun _ => none

/-- The outcome of an operator. -/
def Operator.operation (o : Operator) : Operation := fun x y =>
  (o.result? x y).elim (.error .divisionByZero) .ok

theorem Operator.operation_eq_error {o : Operator} {x y : Float} {err : Error}
    (h : o.operation x y = .error err) :
    err = .divisionByZero ∧ o = .slash ∧ (y == 0) = true := by
  cases o with
  | slash =>
    by_cases hy : (y == 0) = true
    · simp only [operation, result?, hy, if_true, Option.elim_none] at h
      cases h
      exact ⟨rfl, rfl, hy⟩
    · simp [operation, result?, hy] at h
  | _ => cases h

theorem value?_operation {o : Operator} {left right : Tree} {x y z : Float}
    (hx : left.value? = some x) (hy : right.value? = some y) (hz : o.operation x y = .ok z) :
    (Tree.operation o left right).value? = some z := by
  simp only [Tree.value?, hx, hy, Option.bind_some]
  simp only [Operator.operation] at hz
  cases hr : o.result? x y with
  | none => simp [hr] at hz
  | some z' => simpa [hr] using hz

theorem divide_eq : divide = Operator.slash.operation := by
  funext x y
  simp only [divide, Operator.operation, Operator.result?]
  split <;> rfl

/-- An operator is read where it stands. -/
theorem operators_sign (o : Operator) (s : Text) :
    o.level.operators (o.sign ++ s) = some (o.operation, s) := by
  cases o with
  | slash => exact congrArg (fun f => some (f, s)) divide_eq
  | _ => rfl

/-- What is read as an operator is one. -/
theorem operator_of_operators {level : Level} {s t : Text} {f : Operation}
    (h : level.operators s = some (f, t)) :
    ∃ o : Operator, o.level = level ∧ s = o.sign ++ t ∧ f = o.operation := by
  cases level with
  | sum =>
    simp only [Level.operators] at h
    unfold additive? at h
    split at h
    · cases h
      exact ⟨.plus, rfl, rfl, rfl⟩
    · cases h
      exact ⟨.minus, rfl, rfl, rfl⟩
    · cases h
  | product =>
    simp only [Level.operators] at h
    unfold multiplicative? at h
    split at h
    · cases h
      exact ⟨.times, rfl, rfl, rfl⟩
    · cases h
      exact ⟨.slash, rfl, rfl, divide_eq⟩
    · cases h
  | power =>
    simp only [Level.operators] at h
    unfold exponential? at h
    split at h
    · cases h
      exact ⟨.stars, rfl, rfl, rfl⟩
    · cases h
      exact ⟨.caret, rfl, rfl, rfl⟩
    · cases h
  | factor => cases h

/-- No operator is read exactly where none stands. -/
theorem operators_eq_none {level : Level} {s : Text} :
    level.operators s = none ↔ Ends level s := by
  constructor
  · rintro h o rfl ⟨t, rfl⟩
    rw [operators_sign] at h
    cases h
  · intro h
    cases hs : level.operators s with
    | none => rfl
    | some found =>
      obtain ⟨f, t⟩ := found
      obtain ⟨o, ho, rfl, -⟩ := operator_of_operators hs
      exact absurd (List.prefix_append _ _) (h o ho)

theorem ends_nil (level : Level) : Ends level [] := by
  intro o _ h
  cases o <;> simp [Operator.sign] at h

/-- Nothing that an expression of this level could take up stands at the beginning of a text. -/
def Finished : Level → Text → Prop
  | .sum, s => Ends .power s ∧ Ends .product s ∧ Ends .sum s
  | .product, s => Ends .power s ∧ Ends .product s
  | .power, s => Ends .power s
  | .factor, _ => True

theorem finished_iff {level : Level} {s : Text} (hlevel : level ≠ .factor) :
    Finished level s ↔ Finished level.operand s ∧ Ends level s := by
  cases level with
  | factor => exact absurd rfl hlevel
  | _ => simp [Finished, Level.operand, and_assoc]

theorem finished_nil (level : Level) : Finished level [] := by
  cases level <;> simp [Finished, ends_nil]

theorem Operator.exists_sign (o : Operator) : ∃ c s, o.sign = c :: s := by
  cases o <;> exact ⟨_, _, rfl⟩

theorem Operator.length_sign_pos (o : Operator) : 0 < o.sign.length := by
  obtain ⟨c, s, hsign⟩ := o.exists_sign
  simp [hsign]

theorem ends_cons {level : Level} {c : Char} {s : Text}
    (h : ∀ o : Operator, o.level = level → o.sign.head? ≠ some c) : Ends level (c :: s) := by
  rintro o ho ⟨t, ht⟩
  obtain ⟨d, ds, hsign⟩ := o.exists_sign
  refine h o ho ?_
  rw [hsign] at ht ⊢
  exact congrArg some (List.cons.inj ht).1

/-- A closing parenthesis continues no expression. -/
theorem finished_parenthesis (level : Level) (s : Text) : Finished level (')' :: s) := by
  have hends (level : Level) : Ends level (')' :: s) :=
    ends_cons fun o _ => by cases o <;> decide
  cases level <;> simp [Finished, hends]

theorem ends_star {s : Text} (hs : StopsBefore (· == '*') s) : Ends .power ('*' :: s) := by
  rintro o ho ⟨t, ht⟩
  cases o with
  | stars =>
    simp only [Operator.sign, List.cons_append, List.nil_append, List.cons.injEq, true_and] at ht
    rw [← ht, Text.stopsBefore_cons] at hs
    cases hs
  | caret => simp [Operator.sign] at ht
  | _ => cases ho

/-- An operator ends its left operand, unless it is a star in front of another one. -/
theorem finished_sign {o : Operator} {s : Text} (hs : StopsBefore (· == '*') s) :
    Finished o.level.operand (o.sign ++ s) := by
  cases o with
  | plus =>
    exact ⟨ends_cons fun p => by cases p <;> decide, ends_cons fun p => by cases p <;> decide⟩
  | minus =>
    exact ⟨ends_cons fun p => by cases p <;> decide, ends_cons fun p => by cases p <;> decide⟩
  | times => exact ends_star hs
  | slash => exact ends_cons fun p => by cases p <;> decide
  | stars => trivial
  | caret => trivial

/-! ## Readers of a level -/

/-- What reading gives for an expression with or without a value. -/
def outcome (x? : Option Float) (rest : Text) : Except Error (Float × Text) :=
  x?.elim (.error .divisionByZero) fun x => .ok (x, rest)

/-- The reader gives the meaning of the grammar at a level, within some room. -/
structure Reads (table : FunctionTable) (room : Nat) (level : Level) (read : Reader) : Prop where
  sound : ∀ {s rest : Text} {x : Float}, read s = .ok (x, rest) →
    ∃ e, Derives table level e s rest ∧ e.depth ≤ room ∧ e.value? = some x ∧ Finished level rest
  complete : ∀ {e : Tree} {s rest : Text}, Derives table level e s rest → e.depth ≤ room →
    Finished level rest → read s = outcome e.value? rest
  fails : ∀ {s : Text} {err : Error}, read s = .error err →
    err.isFormal = true ∨ err = .divisionByZero ∧ MeetsZero table room level s
  zero : ∀ {s : Text}, MeetsZero table room level s → read s = .error .divisionByZero

/-- A reader of a level takes at least one character. -/
theorem Reads.length_lt {table : FunctionTable} {room : Nat} {level : Level} {read : Reader}
    (h : Reads table room level read) {s rest : Text} {x : Float}
    (hread : read s = .ok (x, rest)) : rest.length < s.length := by
  obtain ⟨e, he, -, -, -⟩ := h.sound hread
  exact he.length_lt

theorem stopsBefore_letters {name : Text} (hne : name ≠ [])
    (hname : ∀ c ∈ name, Text.isLetter c = true) (rest : Text) :
    StopsBefore (· == '*') (name ++ rest) := by
  obtain ⟨c, t, rfl⟩ := List.exists_cons_of_ne_nil hne
  have hc := hname c List.mem_cons_self
  rw [List.cons_append, Text.stopsBefore_cons, beq_eq_false_iff_ne]
  rintro rfl
  revert hc
  decide

/-- An expression begins with no star. -/
theorem Derives.head {table : FunctionTable} {level : Level} {e : Tree} {s rest : Text}
    (h : Derives table level e s rest) : StopsBefore (· == '*') s := by
  induction h with
  | number hliteral =>
    obtain ⟨c, t, rfl, hc⟩ := hliteral.head
    rw [Text.stopsBefore_cons, beq_eq_false_iff_ne]
    rintro rfl
    cases hc
  | call hne hname _ _ _ => exact stopsBefore_letters hne hname _
  | operand _ ih => exact ih
  | operation _ _ ih _ => exact ih
  | _ => rfl

theorem MeetsZero.head {table : FunctionTable} {room : Nat} {level : Level} {s : Text}
    (h : MeetsZero table room level s) : StopsBefore (· == '*') s := by
  induction h with
  | divisor hleft _ _ _ _ _ _ _ => exact hleft.head
  | operand _ ih => exact ih
  | operation hleft _ _ _ _ => exact hleft.head
  | call hne hname _ _ => exact stopsBefore_letters hne hname _
  | _ => rfl

/-! ## Chains -/

section Chain

variable {table : FunctionTable} {room : Nat} {level : Level} {operand : Reader}

/-- The steps of a chain are bounded by what is left of the text. -/
theorem foldChain_fuel (h : Reads table room level.operand operand) {m n : Nat} {x : Float}
    {s : Text} (hm : s.length ≤ m) (hn : s.length ≤ n) :
    foldChain level.operators operand m x s = foldChain level.operators operand n x s := by
  induction m generalizing n x s with
  | zero =>
    obtain rfl : s = [] := List.length_eq_zero_iff.mp (Nat.le_zero.mp hm)
    have hnone := operators_eq_none.mpr (ends_nil level)
    cases n <;> simp [foldChain, hnone]
  | succ m ih =>
    cases n with
    | zero =>
      obtain rfl : s = [] := List.length_eq_zero_iff.mp (Nat.le_zero.mp hn)
      have hnone := operators_eq_none.mpr (ends_nil level)
      simp [foldChain, hnone]
    | succ n =>
      cases hs : level.operators s with
      | none => simp only [foldChain, hs]
      | some found =>
        obtain ⟨f, t⟩ := found
        obtain ⟨o, rfl, rfl, rfl⟩ := operator_of_operators hs
        have hlength := o.length_sign_pos
        rw [List.length_append] at hm hn
        simp only [foldChain, hs]
        cases hy : operand t with
        | error err => rfl
        | ok found =>
          obtain ⟨y, rest⟩ := found
          have hrest := h.length_lt hy
          cases hz : o.operation x y with
          | error err => simp only [bind, Except.bind, hz]
          | ok z => simpa only [bind, Except.bind, hz] using ih (by omega) (by omega)

/-- An operator and its operand are a step of a chain. -/
theorem foldChain_sign {o : Operator} (h : Reads table room o.level.operand operand) {x : Float}
    {s : Text} {n : Nat} (hn : (o.sign ++ s).length ≤ n) :
    foldChain o.level.operators operand n x (o.sign ++ s) = (do
      let (y, rest) ← operand s
      let z ← o.operation x y
      foldChain o.level.operators operand rest.length z rest) := by
  have hpos := o.length_sign_pos
  rw [List.length_append] at hn
  obtain ⟨m, rfl⟩ : ∃ m, n = m + 1 := ⟨n - 1, by omega⟩
  simp only [foldChain, operators_sign]
  cases hy : operand s with
  | error err => rfl
  | ok found =>
    obtain ⟨y, rest⟩ := found
    have hrest := h.length_lt hy
    cases hz : o.operation x y with
    | error err => simp only [bind, Except.bind, hz]
    | ok z => simpa only [bind, Except.bind, hz] using foldChain_fuel h (by omega) (by omega)

theorem chain_of_derives (h : Reads table room level.operand operand) (hlevel : level ≠ .factor)
    {e : Tree} {s rest : Text} (he : Derives table level e s rest) (hdepth : e.depth ≤ room)
    (hrest : Finished level.operand rest) :
    chain level.operators operand s = e.value?.elim (.error .divisionByZero) fun x =>
      foldChain level.operators operand rest.length x rest := by
  -- Only the left operand is of the level of the chain itself.
  induction he with
  | number _ => exact absurd rfl hlevel
  | group _ _ => exact absurd rfl hlevel
  | minus _ _ => exact absurd rfl hlevel
  | plus _ _ => exact absurd rfl hlevel
  | call _ _ _ _ _ => exact absurd rfl hlevel
  | @operand level e s rest he _ =>
    rw [chain, h.complete he hdepth hrest]
    cases e.value? <;> rfl
  | @operation o left right s t rest hleft hright ih _ =>
    obtain ⟨hldepth, hrdepth⟩ := Nat.max_le.mp hdepth
    rw [ih h hlevel hldepth (finished_sign hright.head)]
    cases hx : left.value? with
    | none => simp [Tree.value?, hx]
    | some x =>
      rw [Option.elim_some, foldChain_sign h le_rfl, h.complete hright hrdepth hrest]
      cases hy : right.value? with
      | none => simp [Tree.value?, hx, hy, outcome, bind, Except.bind]
      | some y =>
        simp only [Tree.value?, hx, hy, outcome, bind, Except.bind, Option.elim_some,
          Option.bind_some, Operator.operation]
        cases o.result? x y <;> rfl

theorem foldChain_sound (h : Reads table room level.operand operand) {n : Nat} {e : Tree}
    {s t rest : Text} {x y : Float} (hn : t.length ≤ n) (he : Derives table level e s t)
    (hdepth : e.depth ≤ room) (hx : e.value? = some x) (ht : Finished level.operand t)
    (hlevel : level ≠ .factor) (hread : foldChain level.operators operand n x t = .ok (y, rest)) :
    ∃ e, Derives table level e s rest ∧ e.depth ≤ room ∧ e.value? = some y ∧
      Finished level rest := by
  induction n generalizing e t x with
  | zero =>
    obtain rfl : t = [] := List.length_eq_zero_iff.mp (Nat.le_zero.mp hn)
    cases hread
    exact ⟨e, he, hdepth, hx, finished_nil level⟩
  | succ n ih =>
    cases ho : level.operators t with
    | none =>
      simp only [foldChain, ho] at hread
      cases hread
      exact ⟨e, he, hdepth, hx, (finished_iff hlevel).mpr ⟨ht, operators_eq_none.mp ho⟩⟩
    | some found =>
      obtain ⟨f, t⟩ := found
      obtain ⟨o, rfl, rfl, rfl⟩ := operator_of_operators ho
      have hpos := o.length_sign_pos
      rw [List.length_append] at hn
      simp only [foldChain, ho, bind, Except.bind] at hread
      split at hread
      · cases hread
      next found hy =>
        obtain ⟨y', after⟩ := found
        have hafter := h.length_lt hy
        obtain ⟨right, hright, hrdepth, hy', hfinished⟩ := h.sound hy
        split at hread
        · cases hread
        next z hz =>
          exact ih (by omega) (.operation he hright) (Nat.max_le.mpr ⟨hdepth, hrdepth⟩)
            (value?_operation hx hy' hz) hfinished hread

theorem foldChain_fails (h : Reads table room level.operand operand) {n : Nat} {e : Tree}
    {s t : Text} {x : Float} {err : Error} (hn : t.length ≤ n) (he : Derives table level e s t)
    (hdepth : e.depth ≤ room) (hx : e.value? = some x)
    (hread : foldChain level.operators operand n x t = .error err) :
    err.isFormal = true ∨ err = .divisionByZero ∧ MeetsZero table room level s := by
  induction n generalizing e t x with
  | zero => cases hread
  | succ n ih =>
    cases ho : level.operators t with
    | none =>
      simp only [foldChain, ho] at hread
      cases hread
    | some found =>
      obtain ⟨f, t⟩ := found
      obtain ⟨o, rfl, rfl, rfl⟩ := operator_of_operators ho
      have hpos := o.length_sign_pos
      rw [List.length_append] at hn
      simp only [foldChain, ho, bind, Except.bind] at hread
      split at hread
      next _ hfail =>
        cases hread
        refine (h.fails hfail).imp_right fun ⟨herr, hzero⟩ => ⟨herr, ?_⟩
        exact .operation he hdepth hx hzero
      next found hy =>
        obtain ⟨y', after⟩ := found
        have hafter := h.length_lt hy
        obtain ⟨right, hright, hrdepth, hy', hfinished⟩ := h.sound hy
        split at hread
        next _ hfail =>
          cases hread
          obtain ⟨rfl, rfl, hy0⟩ := Operator.operation_eq_error hfail
          exact .inr ⟨rfl, .divisor he hdepth hx hright hrdepth hy' hfinished hy0⟩
        next z hz =>
          exact ih (by omega) (.operation he hright) (Nat.max_le.mpr ⟨hdepth, hrdepth⟩)
            (value?_operation hx hy' hz) hread

/-- Behind what is derived so far, a chain goes on with the operator that stands there. -/
theorem chain_sign (h : Reads table room level.operand operand) {o : Operator} (ho : o.level = level)
    {e : Tree} {s t : Text} {x : Float} (he : Derives table level e s (o.sign ++ t))
    (hdepth : e.depth ≤ room) (hx : e.value? = some x) (ht : StopsBefore (· == '*') t) :
    chain level.operators operand s = (do
      let (y, rest) ← operand t
      let z ← o.operation x y
      foldChain level.operators operand rest.length z rest) := by
  subst ho
  rw [chain_of_derives h o.level_ne_factor he hdepth (finished_sign ht), hx, Option.elim_some,
    foldChain_sign h le_rfl]

/-- A chain of operands that are read by the grammar is read by the grammar. -/
theorem reads_chain (h : Reads table room level.operand operand) (hlevel : level ≠ .factor) :
    Reads table room level (chain level.operators operand) where
  sound := by
    intro s rest y hread
    simp only [chain, bind, Except.bind] at hread
    split at hread
    · cases hread
    next found hx =>
      obtain ⟨x, t⟩ := found
      obtain ⟨e, he, hdepth, hvalue, ht⟩ := h.sound hx
      exact foldChain_sound h le_rfl (.operand he) hdepth hvalue ht hlevel hread
  complete := by
    intro e s rest he hdepth hrest
    obtain ⟨hoperand, hends⟩ := (finished_iff hlevel).mp hrest
    rw [chain_of_derives h hlevel he hdepth hoperand]
    have hstop (x : Float) :
        foldChain level.operators operand rest.length x rest = .ok (x, rest) := by
      cases hlength : rest.length with
      | zero => rfl
      | succ n => simp only [foldChain, operators_eq_none.mpr hends]
    simp only [hstop, outcome]
  fails := by
    intro s err hread
    simp only [chain, bind, Except.bind] at hread
    split at hread
    next _ hfail =>
      cases hread
      exact (h.fails hfail).imp_right fun ⟨herr, hzero⟩ => ⟨herr, .operand hzero⟩
    next found hx =>
      obtain ⟨x, t⟩ := found
      obtain ⟨e, he, hdepth, hvalue, ht⟩ := h.sound hx
      exact foldChain_fails h le_rfl (.operand he) hdepth hvalue hread
  zero := by
    intro s hzero
    cases hzero with
    | divisor hleft hldepth hx hright hrdepth hy hrest hzero =>
      rw [chain_sign (o := .slash) h rfl hleft hldepth hx hright.head,
        h.complete hright hrdepth hrest, hy]
      simp [outcome, bind, Except.bind, Operator.operation, Operator.result?, hzero]
    | operand hzero => simp only [chain, h.zero hzero, bind, Except.bind]
    | operation hleft hldepth hx hzero =>
      rw [chain_sign h rfl hleft hldepth hx hzero.head, h.zero hzero]
      rfl
    | group _ => exact absurd rfl hlevel
    | minus _ => exact absurd rfl hlevel
    | plus _ => exact absurd rfl hlevel
    | call _ _ _ => exact absurd rfl hlevel

end Chain

end DeskCalc.Expression

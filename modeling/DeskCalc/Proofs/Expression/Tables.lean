import DeskCalc.Proofs.Expression.Reading
import DeskCalc.Query.Arithmetic

/-!
# Larger tables of functions

A function is looked up only when its argument has been read and has a value.  An evaluation
therefore goes the same way with two tables up to the first name that one of them lacks, and a
larger table matters only to texts that come to a function which the smaller one does not have.
-/

namespace DeskCalc.Expression

/-- Every function of the one table is in the other, under the same name. -/
def Extends (small large : FunctionTable) : Prop :=
  ∀ name f, small name = some f → large name = some f

theorem extends_tableOf_append (functions more : List Function) :
    Extends (tableOf functions) (tableOf (functions ++ more)) := by
  intro name f hf
  obtain ⟨g, hfound, rfl⟩ := Option.map_eq_some_iff.mp hf
  rw [tableOf, List.find?_append, hfound, Option.some_or, Option.map_some]

/-- The functions of expressions are among those of queries. -/
theorem extends_extendedTable : Extends standardTable extendedTable :=
  extends_tableOf_append _ _

/-! ## Results with two tables -/

/-- The results of one evaluation with two tables. -/
inductive Continues (small large : FunctionTable) {α : Type} :
    Except Error α → Except Error α → Prop
  /-- The second table changes nothing, and what the first one does not know it lacks. -/
  | same {r : Except Error α}
    (h : ∀ name, r = .error (.unknownFunction name) → small (name.map Char.toLower) = none) :
    Continues small large r r
  /-- The first table lacks a function that the second one goes on with. -/
  | known {name : Text} {r : Except Error α} (hsmall : small (name.map Char.toLower) = none)
    (hlarge : large (name.map Char.toLower) ≠ none) :
    Continues small large (.error (.unknownFunction name)) r

/-- Two readers, one with each of the tables, go on alike. -/
def Parallel (small large : FunctionTable) (read read' : Reader) : Prop :=
  ∀ s, Continues small large (read s) (read' s)

section

variable {small large : FunctionTable} {α β : Type}

theorem Continues.ok (a : α) : Continues small large (.ok a) (.ok a) := by
  refine .same fun name h => ?_
  cases h

theorem Continues.bind {r r' : Except Error α} {f g : α → Except Error β}
    (h : Continues small large r r') (hfg : ∀ a, Continues small large (f a) (g a)) :
    Continues small large (r >>= f) (r' >>= g) := by
  cases h with
  | known hsmall hlarge => exact .known hsmall hlarge
  | same h =>
    cases r with
    | ok a => exact hfg a
    | error e =>
      refine .same fun name heq => h name ?_
      cases heq
      rfl

theorem Continues.map {r r' : Except Error α} (h : Continues small large r r') (f : α → β) :
    Continues small large (r.map f) (r'.map f) := by
  have hmap (q : Except Error α) : q.map f = q >>= fun a => .ok (f a) := by
    cases q <;> rfl
  rw [hmap, hmap]
  exact h.bind fun a => .ok (f a)

section Results

variable {r r' : Except Error α} (h : Continues small large r r')
include h

theorem Continues.eq_ok {a : α} (hr : r = .ok a) : r' = .ok a := by
  cases h with
  | same => exact hr
  | known => cases hr

theorem Continues.eq_error {e : Error} (he : ∀ name, e ≠ .unknownFunction name)
    (hr : r = .error e) : r' = .error e := by
  cases h with
  | same => exact hr
  | known => exact absurd (Except.error.inj hr).symm (he _)

/-- A name that the first table does not know it lacks, and so may the second one. -/
theorem Continues.of_unknown {name : Text} (hr : r = .error (.unknownFunction name)) :
    small (name.map Char.toLower) = none ∧
      (large (name.map Char.toLower) = none → r' = .error (.unknownFunction name)) := by
  cases h with
  | same hname => exact ⟨hname name hr, fun _ => hr⟩
  | known hsmall hlarge =>
    cases hr
    exact ⟨hsmall, fun hnone => absurd hnone hlarge⟩

end Results

/-! ## Chains -/

variable {read read' : Reader}

theorem parallel_foldChain {level : Level} (h : Parallel small large read read') (n : Nat)
    (x : Float) : Parallel small large (foldChain level.operators read n x)
      (foldChain level.operators read' n x) := by
  induction n generalizing x with
  | zero => exact fun s => .ok (x, s)
  | succ n ih =>
    intro s
    rw [foldChain, foldChain]
    split
    · exact .ok (x, s)
    next operation rest hoperator =>
      obtain ⟨o, -, -, rfl⟩ := operator_of_operators hoperator
      refine (h rest).bind fun found => ?_
      refine Continues.bind (.same fun name herror => ?_) fun z => ih z found.2
      -- The only error of an operator is a zero divisor.
      cases (Operator.operation_eq_error herror).1

theorem parallel_chain (level : Level) (h : Parallel small large read read') :
    Parallel small large (chain level.operators read) (chain level.operators read') := fun s =>
  (h s).bind fun found => parallel_foldChain h found.2.length found.1 found.2

theorem parallel_sumOf (h : Parallel small large read read') :
    Parallel small large (sumOf read) (sumOf read') :=
  parallel_chain .sum (parallel_chain .product (parallel_chain .power h))

/-! ## Factors -/

theorem continues_closing {err : Error} (herr : ∀ name, err ≠ .unknownFunction name)
    (found : Float × Text) :
    Continues small large (closing err found) (closing err found) := by
  refine .same fun name h => ?_
  unfold closing at h
  split at h
  · cases h
  · exact absurd (Except.error.inj h) (herr name)

/-- The two tables part where a name is looked up. -/
theorem continues_calling (hextends : Extends small large) (name : Text) (found : Float × Text) :
    Continues small large (calling small name found) (calling large name found) := by
  unfold calling
  split
  · cases hsmall : small (name.map Char.toLower) with
    | some f =>
      rw [hextends _ f hsmall]
      exact .ok _
    | none =>
      cases hlarge : large (name.map Char.toLower) with
      | some g => exact .known hsmall (by simp [hlarge])
      | none =>
        refine .same fun other heq => ?_
        cases heq
        exact hsmall
  · exact .same nofun

theorem continues_readNumber (s : Text) :
    Continues small large (readNumber s) (readNumber s) := by
  refine .same fun name h => ?_
  simp only [readNumber] at h
  split at h
  · cases h
  · cases h

/-- The induction is on the room that is left, as in reading. -/
theorem parallel_factor (hextends : Extends small large) (room : Nat) :
    Parallel small large (factor small room) (factor large room) := by
  induction room using Nat.strong_induction_on with
  | h room ih =>
    intro s
    cases room, s using factor_cases with
    | deep hdeep =>
      rw [hdeep, hdeep]
      exact .same nofun
    | group t =>
      rw [factor_group, factor_group]
      exact (parallel_sumOf (ih _ (by omega)) t).bind (continues_closing nofun)
    | minus t =>
      rw [factor_minus, factor_minus]
      exact (ih _ (Nat.lt_succ_self _) t).map _
    | plus t =>
      rw [factor_plus, factor_plus]
      exact ih _ (Nat.lt_succ_self _) t
    | call hne hname t =>
      rw [factor_call hne hname, factor_call hne hname]
      exact (parallel_sumOf (ih _ (by omega)) t).bind (continues_calling hextends _)
    | name hname =>
      rw [hname, hname]
      exact .same nofun
    | number hnumber =>
      rw [hnumber, hnumber]
      exact continues_readNumber _
    | other hother =>
      rw [hother, hother]
      exact .same nofun

/-! ## Whole expressions -/

theorem continues_valueOf (hextends : Extends small large) (s : Text) :
    Continues small large (valueOf small s) (valueOf large s) := by
  refine (parallel_sumOf (parallel_factor hextends nestingRoom) s).bind fun found => ?_
  obtain ⟨x, rest⟩ := found
  cases rest with
  | nil => exact .ok x
  | cons c t => exact .same nofun

theorem continues_evaluateWith (hextends : Extends small large) (s : Text) :
    Continues small large (evaluateWith small s) (evaluateWith large s) := by
  refine (continues_valueOf hextends (prepare s)).bind fun x => .same fun name h => ?_
  simp only [settle] at h
  split at h
  · cases h
  · split at h
    · cases h
    · cases h

/-- With a larger table an expression has the same value or the same error, unless the error is that
a function is unknown.  Such a function is one that the smaller table lacks, and the error stays if
the larger one lacks it too.  So the functions of queries change no value that an expression has
without them. -/
theorem evaluateWith_larger (hextends : Extends small large) (s : Text) :
    (∀ x, evaluateWith small s = .ok x → evaluateWith large s = .ok x) ∧
    (∀ e, (∀ name, e ≠ .unknownFunction name) →
      evaluateWith small s = .error e → evaluateWith large s = .error e) ∧
    (∀ name, evaluateWith small s = .error (.unknownFunction name) →
      small (name.map Char.toLower) = none ∧
        (large (name.map Char.toLower) = none →
          evaluateWith large s = .error (.unknownFunction name))) ∧
    ∀ x, evaluate s = .ok x → Query.value? s = some x := by
  have hresults := continues_evaluateWith hextends s
  refine ⟨fun x => hresults.eq_ok, fun e => hresults.eq_error, fun name => hresults.of_unknown,
    fun x hx => ?_⟩
  rw [Query.value?, (continues_evaluateWith extends_extendedTable s).eq_ok hx]
  rfl

/-- A zero divisor is met before a name that only the larger table has. -/
theorem evaluateWith_larger_divisor :
    Extends standardTable extendedTable ∧
      evaluateWith standardTable "1 / (2 - 2) + exp(0)".toList = .error .divisionByZero ∧
      evaluateWith extendedTable "1 / (2 - 2) + exp(0)".toList = .error .divisionByZero := by
  have hdivisor : evaluateWith standardTable "1 / (2 - 2) + exp(0)".toList =
      .error .divisionByZero := by
    rfl
  exact ⟨extends_extendedTable, hdivisor,
    (evaluateWith_larger extends_extendedTable _).2.1 _ nofun hdivisor⟩

end

end DeskCalc.Expression

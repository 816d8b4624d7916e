import DeskCalc.Attempt
import DeskCalc.Text.Basic

/-!
# Outcomes of rules

A query is handed from rule to rule.  A rule may pass it on, answer it, or halt the search, so that
the query is left to the evaluation of expressions; a fault ends the search too.
-/

namespace DeskCalc.Query

/-- What a rule does with a query. -/
inductive Outcome where
  | pass
  | halt
  | answer (t : Text)
  | broken (f : Fault)
deriving Repr, DecidableEq

namespace Outcome

/-- Answers with what was found, and passes the query on if nothing was. -/
def ofAttempt : Attempt Text → Outcome
  | .found t => answer t
  | .nothing => pass
  | .broken e => broken e

/-- Answers with what an option holds, and passes the query on if it is empty. -/
def ofOption : Option Text → Outcome
  | some t => answer t
  | none => pass

/-- Answers with what was found, and halts the search if nothing was. -/
def decide : Attempt Text → Outcome
  | .found t => answer t
  | .nothing => halt
  | .broken e => broken e

/-- Leaves a query that is passed on to another rule. -/
def orElse (x : Outcome) (y : Unit → Outcome) : Outcome :=
  match x with
  | pass => y ()
  | _ => x

instance : OrElse Outcome := ⟨orElse⟩

end Outcome
end DeskCalc.Query

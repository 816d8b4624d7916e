/-!
# Attempts

Reading and converting may find nothing, which lets another reading be tried, or break off with a
fault, which ends the whole query.  `Attempt` keeps the two apart.
-/

namespace DeskCalc

/-- Why reading or computing breaks off. -/
inductive Fault where
  /-- an integer or a quotient lies beyond the largest double -/
  | tooLarge
  /-- a decimal numeral has more digits than are read -/
  | tooLong
  /-- a number is to be written with more digits than are worked out -/
  | tooPrecise
  /-- a decimal is to be shifted beyond the highest power of ten -/
  | tooHigh
  /-- a text is to be longer than can be kept -/
  | noRoom
  /-- the parts of a document are nested too deeply -/
  | tooDeep
  /-- a text that is to become bytes holds half a character -/
  | halfCharacter
  /-- a decimal sum has a summand that is not finite -/
  | notFinite
  /-- a text that is used as a number is none -/
  | notNumeric
  /-- a value that is used as a number is of a kind that has none -/
  | noNumber
deriving Repr, DecidableEq

/-- The result of trying something. -/
inductive Attempt (α : Type) where
  | found (a : α) : Attempt α
  | nothing : Attempt α
  | broken (f : Fault) : Attempt α
deriving Repr, DecidableEq

namespace Attempt

variable {α β : Type}

/-- Goes on with what was found. -/
def bind (x : Attempt α) (f : α → Attempt β) : Attempt β :=
  match x with
  | found a => f a
  | nothing => nothing
  | broken e => broken e

instance : Monad Attempt where
  pure := found
  bind := bind

/-- Tries something else when nothing was found. -/
def orElse (x : Attempt α) (y : Unit → Attempt α) : Attempt α :=
  match x with
  | nothing => y ()
  | _ => x

instance : OrElse (Attempt α) := ⟨orElse⟩

/-- Finds what an option holds. -/
def ofOption : Option α → Attempt α
  | some a => found a
  | none => nothing

/-- Goes on only under a condition. -/
def require (p : Bool) : Attempt Unit :=
  if p then found () else nothing

/-- Breaks off with `e` when an option is empty. -/
def orBreak (e : Fault) : Option α → Attempt α
  | some a => found a
  | none => broken e

/-- What was found, if anything, unless the attempt broke off. -/
def toExcept : Attempt α → Except Fault (Option α)
  | found a => .ok (some a)
  | nothing => .ok none
  | broken e => .error e

/-- What was found; an attempt that broke off has found nothing. -/
def toOption : Attempt α → Option α
  | found a => some a
  | _ => none

@[simp] theorem found_bind (a : α) (f : α → Attempt β) : (found a >>= f) = f a := rfl

@[simp] theorem nothing_bind (f : α → Attempt β) : (nothing >>= f) = nothing := rfl

@[simp] theorem broken_bind (e : Fault) (f : α → Attempt β) : (broken e >>= f) = broken e := rfl

@[simp] theorem pure_eq_found (a : α) : (pure a : Attempt α) = found a := rfl

end Attempt
end DeskCalc

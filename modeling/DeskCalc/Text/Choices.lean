/-!
# Ordered choices

A shape of text can often be read in several ways, of which the first that leads on is taken.
`Choices` is an ordered list of alternatives whose later members are worked out only on demand;
`toList` shows all of them.
-/

namespace DeskCalc.Text

/-- Alternatives in order of preference. -/
inductive Choices (α : Type) where
  | none : Choices α
  | more (first : α) (others : Unit → Choices α) : Choices α

namespace Choices

variable {α β : Type}

/-- All alternatives, preferred first. -/
def toList : Choices α → List α
  | none => []
  | more a others => a :: (others ()).toList

/-- The preferred alternative. -/
def first? : Choices α → Option α
  | none => Option.none
  | more a _ => some a

/-- A single alternative. -/
def one (a : α) : Choices α :=
  more a fun _ => none

/-- The alternatives of `xs`, then those of `ys`. -/
def orElse (xs : Choices α) (ys : Unit → Choices α) : Choices α :=
  match xs with
  | none => ys ()
  | more a others => more a fun _ => (others ()).orElse ys

/-- Every alternative of `xs` continued in all the ways that `f` gives. -/
def bind (xs : Choices α) (f : α → Choices β) : Choices β :=
  match xs with
  | none => none
  | more a others => (f a).orElse fun _ => (others ()).bind f

@[simp] theorem toList_none : (none : Choices α).toList = [] := rfl

@[simp] theorem toList_more (a : α) (others : Unit → Choices α) :
    (more a others).toList = a :: (others ()).toList := rfl

@[simp] theorem toList_one (a : α) : (one a).toList = [a] := rfl

@[simp] theorem toList_orElse (xs : Choices α) (ys : Unit → Choices α) :
    (xs.orElse ys).toList = xs.toList ++ (ys ()).toList := by
  induction xs with
  | none => rfl
  | more a others ih => simp [orElse, ih]

@[simp] theorem toList_bind (xs : Choices α) (f : α → Choices β) :
    (xs.bind f).toList = xs.toList.flatMap fun a => (f a).toList := by
  induction xs with
  | none => rfl
  | more a others ih => simp [bind, ih]

theorem first?_eq_head? (xs : Choices α) : xs.first? = xs.toList.head? := by
  cases xs <;> rfl

end Choices
end DeskCalc.Text

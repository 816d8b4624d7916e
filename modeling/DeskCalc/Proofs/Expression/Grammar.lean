import DeskCalc.Expression.Evaluate
import DeskCalc.Proofs.Text.Run

/-!
# The grammar of expressions

Sums, products and powers are chains of operands with operators between them, and a chain is
grouped from the left.  A factor is a number, a group, a factor with a sign or the call of a
function.  The grammar relates a tree to the text that it is written by and to the text that
follows it, and says nothing of how a text is read.

The main definitions are `Derives`, the grammar, `Tree.value?`, what a tree is worth, and
`MeetsZero`, which tells the texts in which a zero divisor stands before anything that is no
expression.
-/

namespace DeskCalc.Expression

open Text (StopsBefore)

/-- The levels of the grammar, from the lowest binding to the highest. -/
inductive Level where
  | sum
  | product
  | power
  | factor
deriving Repr, DecidableEq

/-- The level of the operands of a chain.  Factors are not chains and stay at their level. -/
def Level.operand : Level → Level
  | .sum => .product
  | .product => .power
  | .power => .factor
  | .factor => .factor

/-- The operators, of which the power has two spellings. -/
inductive Operator where
  | plus
  | minus
  | times
  | slash
  | stars
  | caret
deriving Repr, DecidableEq

namespace Operator

/-- The chains that an operator belongs to. -/
def level : Operator → Level
  | plus => .sum
  | minus => .sum
  | times => .product
  | slash => .product
  | stars => .power
  | caret => .power

/-- How an operator is written. -/
def sign : Operator → Text
  | plus => ['+']
  | minus => ['-']
  | times => ['*']
  | slash => ['/']
  | stars => ['*', '*']
  | caret => ['^']

/-- What an operator makes of its operands: nothing if the divisor is zero. -/
def result? : Operator → Float → Float → Option Float
  | plus, x, y => some (x + y)
  | minus, x, y => some (x - y)
  | times, x, y => some (x * y)
  | slash, x, y => if y == 0 then none else some (x / y)
  | stars, x, y => some (power x y)
  | caret, x, y => some (power x y)

theorem level_ne_factor (o : Operator) : o.level ≠ .factor := by
  cases o <;> exact Level.noConfusion

end Operator

/-- The structure of an expression. -/
inductive Tree where
  | number (n : Number.Numeral)
  | group (e : Tree)
  | minus (e : Tree)
  | plus (e : Tree)
  | call (f : Float → Float) (e : Tree)
  | operation (o : Operator) (left right : Tree)

namespace Tree

/-- The value of an expression, worked out from left to right; there is none if a divisor is
zero. -/
def value? : Tree → Option Float
  | number n => some n.value
  | group e => e.value?
  | minus e => e.value?.map (-·)
  | plus e => e.value?
  | call f e => e.value?.map f
  | operation o left right =>
    left.value?.bind fun x => right.value?.bind fun y => o.result? x y

/-- The room that the groups, arguments and signs inside each other take. -/
def depth : Tree → Nat
  | number _ => 0
  | group e => e.depth + 4
  | minus e => e.depth + 1
  | plus e => e.depth + 1
  | call _ e => e.depth + 5
  | operation _ left right => max left.depth right.depth

end Tree

/-! ## Literals -/

/-- Digits of the basic alphabet, if any. -/
def AreDigits (s : Text) : Prop :=
  ∀ c ∈ s, c.isDigit = true

/-- The spelling of a mantissa: digits with at most one point among them, and at least one
digit. -/
inductive Mantissa : Text → Text → Text → Prop where
  | whole {whole : Text} : whole ≠ [] → AreDigits whole → Mantissa whole [] whole
  | pointed {whole fraction : Text} :
    whole ≠ [] ∨ fraction ≠ [] → AreDigits whole → AreDigits fraction →
      Mantissa whole fraction (whole ++ '.' :: fraction)

/-- The spelling of a complete exponent. -/
inductive Exponent : Int → Text → Prop where
  | bare {c : Char} {digits : Text} :
    c = 'e' ∨ c = 'E' → digits ≠ [] → AreDigits digits →
      Exponent (Text.digitsValue digits) (c :: digits)
  | plus {c : Char} {digits : Text} :
    c = 'e' ∨ c = 'E' → digits ≠ [] → AreDigits digits →
      Exponent (Text.digitsValue digits) (c :: '+' :: digits)
  | minus {c : Char} {digits : Text} :
    c = 'e' ∨ c = 'E' → digits ≠ [] → AreDigits digits →
      Exponent (-(Text.digitsValue digits : Int)) (c :: '-' :: digits)

/-- A number stands at the beginning of a text and `rest` follows it: a run of digits and points
that is as long as possible, and an exponent if a complete one follows. -/
inductive Literal : Number.Numeral → Text → Text → Prop where
  | plain {whole fraction body rest : Text} :
    Mantissa whole fraction body → StopsBefore isNumberChar rest →
      (∀ power written after, Exponent power written → rest ≠ written ++ after) →
      Literal ⟨whole, fraction, 0⟩ (body ++ rest) rest
  | scientific {whole fraction body written rest : Text} {power : Int} :
    Mantissa whole fraction body → Exponent power written → StopsBefore Char.isDigit rest →
      Literal ⟨whole, fraction, power⟩ (body ++ (written ++ rest)) rest

/-! ## Derivations -/

/-- The tree is written at the beginning of a text, and `rest` follows it.  A name is the longest
run of letters, since the parenthesis of its argument follows. -/
inductive Derives (table : FunctionTable) : Level → Tree → Text → Text → Prop where
  | number {n : Number.Numeral} {s rest : Text} :
    Literal n s rest → Derives table .factor (.number n) s rest
  | group {e : Tree} {s rest : Text} :
    Derives table .sum e s (')' :: rest) → Derives table .factor (.group e) ('(' :: s) rest
  | minus {e : Tree} {s rest : Text} :
    Derives table .factor e s rest → Derives table .factor (.minus e) ('-' :: s) rest
  | plus {e : Tree} {s rest : Text} :
    Derives table .factor e s rest → Derives table .factor (.plus e) ('+' :: s) rest
  | call {name : Text} {f : Float → Float} {e : Tree} {s rest : Text} :
    name ≠ [] → (∀ c ∈ name, Text.isLetter c = true) →
      table (name.map Char.toLower) = some f → Derives table .sum e s (')' :: rest) →
      Derives table .factor (.call f e) (name ++ '(' :: s) rest
  | operand {level : Level} {e : Tree} {s rest : Text} :
    Derives table level.operand e s rest → Derives table level e s rest
  | operation {o : Operator} {left right : Tree} {s t rest : Text} :
    Derives table o.level left s (o.sign ++ t) →
      Derives table o.level.operand right t rest →
      Derives table o.level (.operation o left right) s rest

/-- No operator of this level stands at the beginning of a text. -/
def Ends (level : Level) (s : Text) : Prop :=
  ∀ o : Operator, o.level = level → ¬o.sign <+: s

/-- Within `room`, a zero divisor stands in a text before anything that is no expression: all that
precedes the divisor is the beginning of an expression whose parts have values. -/
inductive MeetsZero (table : FunctionTable) : Nat → Level → Text → Prop where
  | divisor {room : Nat} {left right : Tree} {s t rest : Text} {x y : Float} :
    Derives table .product left s ('/' :: t) → left.depth ≤ room → left.value? = some x →
      Derives table .power right t rest → right.depth ≤ room → right.value? = some y →
      Ends .power rest → (y == 0) = true → MeetsZero table room .product s
  | operand {room : Nat} {level : Level} {s : Text} :
    MeetsZero table room level.operand s → MeetsZero table room level s
  | operation {room : Nat} {o : Operator} {left : Tree} {s t : Text} {x : Float} :
    Derives table o.level left s (o.sign ++ t) → left.depth ≤ room → left.value? = some x →
      MeetsZero table room o.level.operand t → MeetsZero table room o.level s
  | group {room : Nat} {s : Text} :
    MeetsZero table room .sum s → MeetsZero table (room + 4) .factor ('(' :: s)
  | minus {room : Nat} {s : Text} :
    MeetsZero table room .factor s → MeetsZero table (room + 1) .factor ('-' :: s)
  | plus {room : Nat} {s : Text} :
    MeetsZero table room .factor s → MeetsZero table (room + 1) .factor ('+' :: s)
  | call {room : Nat} {name s : Text} :
    name ≠ [] → (∀ c ∈ name, Text.isLetter c = true) → MeetsZero table room .sum s →
      MeetsZero table (room + 5) .factor (name ++ '(' :: s)

/-! ## Lengths -/

theorem Mantissa.ne_nil {whole fraction body : Text} (h : Mantissa whole fraction body) :
    body ≠ [] := by
  cases h with
  | whole hne _ => exact hne
  | pointed _ _ _ => simp

/-- A number takes at least one character. -/
theorem Literal.length_lt {n : Number.Numeral} {s rest : Text} (h : Literal n s rest) :
    rest.length < s.length := by
  cases h with
  | plain hbody _ _ =>
    have hpos := List.length_pos_iff.mpr hbody.ne_nil
    rw [List.length_append]
    omega
  | scientific hbody _ _ =>
    have hpos := List.length_pos_iff.mpr hbody.ne_nil
    rw [List.length_append, List.length_append]
    omega

/-- Whatever a text derives takes at least one character of it. -/
theorem Derives.length_lt {table : FunctionTable} {level : Level} {e : Tree} {s rest : Text}
    (h : Derives table level e s rest) : rest.length < s.length := by
  induction h with
  | number hliteral => exact hliteral.length_lt
  | group _ ih => simp only [List.length_cons] at ih ⊢; omega
  | minus _ ih => simp only [List.length_cons] at ih ⊢; omega
  | plus _ ih => simp only [List.length_cons] at ih ⊢; omega
  | call _ _ _ _ ih =>
    simp only [List.length_append, List.length_cons] at ih ⊢
    omega
  | operand _ ih => exact ih
  | operation _ _ ihleft ihright =>
    rw [List.length_append] at ihleft
    omega

end DeskCalc.Expression

import DeskCalc.Expression.Evaluate
import DeskCalc.Proofs.Expression.Spelling
import DeskCalc.Session.Basic
import DeskCalc.Session.Substitution

/-!
# Terms with variables

A term is an expression as it is meant: a number, the last result, a name, or made of smaller terms
by signs, operators, parentheses and calls.  It is worth what its operators make of the values of
its names, of which a variable hides a constant.  It is printed with blanks between its tokens and
with the parentheses that its operators need.

The module says nothing of how an expression is evaluated: a term is valued without being printed.
-/

namespace DeskCalc.Session

open Expression (Level Operator Spelling plainZero standardTable)

/-- A name of the basic alphabet: letters, digits and underscores, of which a digit does not come
first. -/
structure Identifier where
  text : Text
  head : ∃ c rest, text = c :: rest ∧ isNameStart c = true
  chars : ∀ c ∈ text, isNameChar c = true

/-- An expression with names. -/
inductive Term where
  | number (n : Spelling)
  | last
  | name (n : Identifier)
  | group (t : Term)
  | plus (t : Term)
  | minus (t : Term)
  | call (f : Identifier) (t : Term)
  | operation (o : Operator) (left right : Term)

/-! ## Values -/

/-- The number that a variable holds. -/
def boundValue? (bindings : List (String × Json)) (name : Text) : Option Float :=
  match bindings.lookup (String.ofList name) with
  | some (.float x) => some (plainZero x)
  | _ => none

/-- The number of a constant. -/
def constantValue? (name : Text) : Option Float :=
  if name = ['p', 'i'] then some Constant.pi
  else if name = ['e'] then some Constant.euler
  else none

/-- What a name stands for: a variable, or else a constant. -/
def nameValue? (bindings : List (String × Json)) (name : Text) : Option Float :=
  (boundValue? bindings name).or (constantValue? name)

/-- The last result, zero if there is none. -/
def lastValue (bindings : List (String × Json)) : Float :=
  (boundValue? bindings lastName.toList).getD 0

/-- The function of a name in any case. -/
def functionOf? (name : Text) : Option (Float → Float) :=
  standardTable (name.map Char.toLower)

namespace Term

variable (bindings : List (String × Json))

/-- Every name stands for a number, and what is called is a function and no variable. -/
def Resolves : Term → Prop
  | number _ => True
  | last => True
  | name n => (nameValue? bindings n.text).isSome = true
  | group t => t.Resolves
  | plus t => t.Resolves
  | minus t => t.Resolves
  | call f t =>
    (functionOf? f.text).isSome = true ∧ bindings.lookup (String.ofList f.text) = none ∧ t.Resolves
  | operation _ left right => left.Resolves ∧ right.Resolves

/-- The value of a term, worked out from left to right.  If its names resolve, it has none only
where a divisor is zero. -/
def value? : Term → Option Float
  | number n => some n.numeral.value
  | last => some (lastValue bindings)
  | name n => nameValue? bindings n.text
  | group t => t.value?
  | plus t => t.value?
  | minus t => t.value?.map (-·)
  | call f t => t.value?.bind fun x => (functionOf? f.text).map (· x)
  | operation o left right =>
    left.value?.bind fun x => right.value?.bind fun y => o.result? x y

/-! ## Printing -/

/-- The highest level of the grammar at which a term can stand without parentheses. -/
def level : Term → Level
  | operation o _ _ => o.level
  | _ => .factor

end Term

/-- The place of a level, from the lowest binding to the highest. -/
def rank : Level → Nat
  | .sum => 0
  | .product => 1
  | .power => 2
  | .factor => 3

/-- A piece of a printed term. -/
inductive Token where
  | operator (o : Operator)
  | opening
  | closing
  | number (n : Spelling)
  | last
  | name (n : Identifier)

/-- A token as it is written, given how names and the last result are. -/
def Token.text (nameText : Identifier → Text) (lastText : Text) : Token → Text
  | .operator o => o.sign
  | .opening => ['(']
  | .closing => [')']
  | .number n => n.text
  | .last => lastText
  | .name n => nameText n

namespace Term

/-- The tokens, in parentheses if they are grouped. -/
def bracketed (grouped : Bool) (tokens : List Token) : List Token :=
  if grouped then .opening :: tokens ++ [.closing] else tokens

/-- Whether a term needs parentheses at a level of the grammar. -/
def needsGroup (level : Level) (t : Term) : Bool :=
  rank t.level < rank level

/-- The tokens of a term. -/
def tokens : Term → List Token
  | number n => [.number n]
  | last => [.last]
  | name n => [.name n]
  | group t => bracketed true t.tokens
  | plus t => .operator .plus :: bracketed (t.needsGroup .factor) t.tokens
  | minus t => .operator .minus :: bracketed (t.needsGroup .factor) t.tokens
  | call f t => .name f :: bracketed true t.tokens
  | operation o left right =>
    bracketed (left.needsGroup o.level) left.tokens ++
      .operator o :: bracketed (right.needsGroup o.level.operand) right.tokens

/-- A printed term: its tokens with blanks between them. -/
def print (t : Term) : Text :=
  Text.spaced (t.tokens.map (Token.text Identifier.text lastName.toList))

/-! ## Depth -/

variable (bindings : List (String × Json))

/-- The room that a number takes: a negative one is written with a sign. -/
def signDepth (x : Float) : Nat :=
  if x < 0 then 1 else 0

/-- The room that a group takes. -/
def groupDepth (grouped : Bool) (depth : Nat) : Nat :=
  if grouped then depth + 4 else depth

/-- The room that the groups, arguments and signs of a term take, those in the texts of its values
included. -/
def depth : Term → Nat
  | number _ => 0
  | last => signDepth (lastValue bindings)
  | name n => signDepth ((nameValue? bindings n.text).getD 0)
  | group t => groupDepth true t.depth
  | plus t => groupDepth (t.needsGroup .factor) t.depth + 1
  | minus t => groupDepth (t.needsGroup .factor) t.depth + 1
  | call _ t => t.depth + 5
  | operation o left right =>
    max (groupDepth (left.needsGroup o.level) left.depth)
      (groupDepth (right.needsGroup o.level.operand) right.depth)

end Term
end DeskCalc.Session

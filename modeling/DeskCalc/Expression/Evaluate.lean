import DeskCalc.Expression.Degrees
import DeskCalc.Expression.Error
import DeskCalc.Expression.Function
import DeskCalc.Number.Reader
import DeskCalc.Text.Letter

/-!
# Evaluating expressions

An expression is evaluated while it is read from the left.  From the lowest to the highest binding
there are sums, products, powers and factors; each of the first three is a chain of the next one
and is folded to the left.  A factor is a group in parentheses, a factor with a sign, a number or a
function with its argument.

Groups, arguments and signs may stand inside each other only as long as there is room.
-/

namespace DeskCalc.Expression

/-- The value of what stands at the beginning of a text, and what follows it. -/
abbrev Reader := Text → Except Error (Float × Text)

/-- What an operator does with its operands. -/
abbrev Operation := Float → Float → Except Error Float

/-- The operator at the beginning of a text, if there is one of this kind, and what follows it. -/
abbrev OperatorReader := Text → Option (Operation × Text)

/-- Division, which has no value for the divisor zero. -/
def divide (x y : Float) : Except Error Float :=
  if y == 0 then .error .divisionByZero else .ok (x / y)

/-- The operators of sums. -/
def additive? : OperatorReader
  | '+' :: rest => some (fun x y => .ok (x + y), rest)
  | '-' :: rest => some (fun x y => .ok (x - y), rest)
  | _ => none

/-- The operators of products. -/
def multiplicative? : OperatorReader
  | '*' :: rest => some (fun x y => .ok (x * y), rest)
  | '/' :: rest => some (divide, rest)
  | _ => none

/-- The operator of powers, in its two spellings. -/
def exponential? : OperatorReader
  | '*' :: '*' :: rest => some (fun x y => .ok (power x y), rest)
  | '^' :: rest => some (fun x y => .ok (power x y), rest)
  | _ => none

/-- Applies the operators that follow to the value so far; `fuel` bounds their number. -/
def foldChain (operator? : OperatorReader) (operand : Reader) : Nat → Float → Reader
  | 0, x, s => .ok (x, s)
  | fuel + 1, x, s =>
    match operator? s with
    | none => .ok (x, s)
    | some (operation, rest) => do
      let (y, rest) ← operand rest
      let z ← operation x y
      foldChain operator? operand fuel z rest

/-- Operands with operators of one kind between them. -/
def chain (operator? : OperatorReader) (operand : Reader) : Reader := fun s => do
  let (x, rest) ← operand s
  foldChain operator? operand rest.length x rest

/-- A sum of products of powers of factors. -/
def sumOf (factor : Reader) : Reader :=
  chain additive? (chain multiplicative? (chain exponential? factor))

/-- The characters of numbers. -/
def isNumberChar (c : Char) : Bool :=
  c.isDigit || c == '.'

/-- The exponent at the beginning of a text, if there is a complete one, as it is written. -/
def exponentText (s : Text) : Text :=
  match s with
  | c :: rest =>
    if c = 'e' ∨ c = 'E' then
      let sign := rest.takeWhile fun d => d == '+' || d == '-'
      let sign := sign.take 1
      match (rest.drop sign.length).takeWhile Char.isDigit with
      | [] => []
      | digits => c :: sign ++ digits
    else []
  | [] => []

/-- A number: all the digits and points that stand here, and an exponent. -/
def readNumber : Reader := fun s =>
  let body := s.takeWhile isNumberChar
  let after := s.dropWhile isNumberChar
  let literal := body ++ exponentText after
  match Number.readNumeral? literal with
  | some (n, []) => .ok (n.value, s.drop literal.length)
  | _ => .error (.badNumber literal)

/-- A factor.  A group takes four places of the room that is left, an argument five and a sign
one. -/
def factor (table : FunctionTable) : Nat → Reader
  | room, '(' :: rest =>
    match room with
    | room + 4 => do
      let (x, rest) ← sumOf (factor table room) rest
      match rest with
      | ')' :: rest => .ok (x, rest)
      | _ => .error .unclosedGroup
    | _ => .error .tooDeep
  | room, '-' :: rest =>
    match room with
    | room + 1 => (factor table room rest).map fun (x, rest) => (-x, rest)
    | 0 => .error .tooDeep
  | room, '+' :: rest =>
    match room with
    | room + 1 => factor table room rest
    | 0 => .error .tooDeep
  | room, s =>
    match s.takeWhile Text.isLetter with
    | [] => if s.head?.any isNumberChar then readNumber s else .error .noOperand
    | name =>
      match s.dropWhile Text.isLetter with
      | '(' :: rest =>
        match room with
        | room + 5 => do
          let (x, rest) ← sumOf (factor table room) rest
          match rest with
          | ')' :: rest =>
            match table (name.map Char.toLower) with
            | some f => .ok (f x, rest)
            | none => .error (.unknownFunction name)
          | _ => .error .unclosedArgument
        | _ => .error .tooDeep
      | _ => .error .noArgument

/-- The room for groups, arguments and signs inside each other. -/
def nestingRoom : Nat := 992

/-- The value of a prepared expression that takes up the whole text. -/
def valueOf (table : FunctionTable) (s : Text) : Except Error Float := do
  let (x, rest) ← sumOf (factor table nestingRoom) s
  match rest with
  | [] => .ok x
  | _ => .error (.unexpected rest)

/-- A result rounded at twelve decimals, if it is small enough to be scaled by them. -/
def settle (x : Float) : Except Error Float :=
  if !x.isFinite then .error .notFinite
  else
    let scaled := x * 1e12
    if scaled.isFinite then .ok (Number.roundHalfUp scaled / 1e12) else .ok x

/-- The value of an expression. -/
def evaluateWith (table : FunctionTable) (s : Text) : Except Error Float := do
  settle (← valueOf table (prepare s))

/-- The value of an expression with the standard functions. -/
def evaluate (s : Text) : Except Error Float :=
  evaluateWith standardTable s

end DeskCalc.Expression

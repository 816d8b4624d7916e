import DeskCalc.Number.Rounding
import DeskCalc.Text.Basic

/-!
# Functions

The functions of expressions on doubles.  Outside of its domain a function gives NaN, and where its
value is too large it gives positive infinity.
-/

namespace DeskCalc.Expression

/-- `x` to the power `y`.  Zero has no negative powers, and a power of finite numbers that is too
large is positive infinity whatever its sign. -/
def power (x y : Float) : Float :=
  let z := Float.pow x y
  if x.isFinite && y.isFinite && z.isInf then
    if x == 0 then Number.notANumber else Number.infinity
  else z

/-- A function that is defined for finite numbers only. -/
def onFinite (f : Float → Float) (x : Float) : Float :=
  if x.isFinite then f x else Number.notANumber

/-- A logarithm, defined for positive numbers only. -/
def onPositive (f : Float → Float) (x : Float) : Float :=
  if x > 0 then f x else Number.notANumber

/-- A rounding to an integer.  Both infinities become the positive one. -/
def toInteger (f : Float → Int) (x : Float) : Float :=
  if x.isNaN then x
  else if x.isInf then Number.infinity
  else Number.ofInt (f x)

/-- The cube root, by powers. -/
def cubeRoot (x : Float) : Float :=
  if x < 0 then -Float.pow (-x) (1 / 3) else Float.pow x (1 / 3)

/-- A function that expressions can call. -/
inductive Function where
  | sin
  | cos
  | tan
  | sqrt
  | log
  | ln
  | abs
  | floor
  | ceil
  | round
  | asin
  | acos
  | atan
  | cbrt
  | exp
deriving Repr, DecidableEq

namespace Function

/-- The name by which a function is called. -/
def name : Function → String
  | sin => "sin"
  | cos => "cos"
  | tan => "tan"
  | sqrt => "sqrt"
  | log => "log"
  | ln => "ln"
  | abs => "abs"
  | floor => "floor"
  | ceil => "ceil"
  | round => "round"
  | asin => "asin"
  | acos => "acos"
  | atan => "atan"
  | cbrt => "cbrt"
  | exp => "exp"

/-- The value of a function. -/
def apply : Function → Float → Float
  | sin => onFinite Float.sin
  | cos => onFinite Float.cos
  | tan => onFinite Float.tan
  | sqrt => Float.sqrt
  | log => onPositive Float.log10
  | ln => onPositive Float.log
  | abs => Float.abs
  | floor => toInteger Number.floorInt
  | ceil => toInteger Number.ceilInt
  | round => Number.roundHalfUp
  | asin => Float.asin
  | acos => Float.acos
  | atan => Float.atan
  | cbrt => cubeRoot
  | exp => Float.exp

/-- The functions of every expression. -/
def standard : List Function :=
  [sin, cos, tan, sqrt, log, ln, abs, floor, ceil, round]

/-- The functions of queries. -/
def extended : List Function :=
  standard ++ [asin, acos, atan, cbrt, exp]

end Function

/-- The functions that an expression may call, by their names in lower case. -/
abbrev FunctionTable := Text → Option (Float → Float)

/-- The table of a list of functions. -/
def tableOf (functions : List Function) : FunctionTable :=
  fun name => (functions.find? fun f => f.name.toList == name).map Function.apply

/-- The table of every expression. -/
def standardTable : FunctionTable :=
  tableOf Function.standard

/-- The table of queries. -/
def extendedTable : FunctionTable :=
  tableOf Function.extended

end DeskCalc.Expression

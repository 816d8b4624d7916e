import DeskCalc.Measure.Token

/-!
# Categories of units

The categories of the table of units: the dimensions, and temperature among them.
-/

namespace DeskCalc.Measure

/-- A category of units. -/
inductive Category where
  | dimension (d : Dimension)
  | temperature
deriving Repr, DecidableEq

/-- What the table says of a unit: its factor, or the temperature scale that it is. -/
inductive Size where
  | factor (x : Float)
  | scale (t : TemperatureScale)

/-- Why a category has no unit to give. -/
inductive LookupError where
  | unknownCategory (name : String)
  | noBaseUnit (c : Category)
deriving Repr, DecidableEq

namespace Category

/-- All categories, in the order of the table. -/
def all : List Category :=
  [.dimension .length, .dimension .mass, .dimension .volume, .temperature, .dimension .area,
   .dimension .speed, .dimension .time]

/-- The name of a category. -/
def name : Category → String
  | .dimension d => d.name
  | .temperature => "temperature"

/-- The units of a category, in order. -/
def entries : Category → List (String × Size)
  | .dimension d => d.entries.map fun (n, x) => (n, .factor x)
  | .temperature => TemperatureScale.all.map fun t => (t.symbol, .scale t)

/-- The first unit of a category under one of the names of `unit`. -/
def find? (c : Category) (unit : Text) : Option (String × Size) :=
  lookup? c.entries unit

end Category

/-- The wording of an error. -/
def LookupError.message : LookupError → String
  | .unknownCategory name => name
  | .noBaseUnit c => "Category '" ++ c.name ++ "' has no base unit"

/-- The category of a name. -/
def category? (name : String) : Except LookupError Category :=
  match Category.all.find? (·.name == name) with
  | some c => .ok c
  | none => .error (.unknownCategory name)

/-- The base unit of the category of a name. -/
def baseOf (name : String) : Except LookupError String := do
  match ← category? name with
  | .dimension d => return d.base
  | .temperature => throw (.noBaseUnit .temperature)

end DeskCalc.Measure

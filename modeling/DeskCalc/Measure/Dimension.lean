/-!
# Dimensions and their units

The units of a dimension are multiples of its base unit, which is the first one listed with the
factor one.  A unit has several names; which one an answer shows is decided by their order.
Temperatures are no dimension in this sense, since their scales do not share a zero.
-/

namespace DeskCalc

/-- A kind of quantity whose units are multiples of one base unit. -/
inductive Dimension where
  | length
  | mass
  | volume
  | area
  | speed
  | time
deriving Repr, DecidableEq

/-- A unit: its names, and its size in base units. -/
structure Measure where
  names : List String
  factor : Float

namespace Dimension

/-- All dimensions, in the order in which units are looked up. -/
def all : List Dimension :=
  [.length, .mass, .volume, .area, .speed, .time]

/-- The name of a dimension. -/
def name : Dimension → String
  | .length => "length"
  | .mass => "mass"
  | .volume => "volume"
  | .area => "area"
  | .speed => "speed"
  | .time => "time"

/-- The unit in which a dimension's quantities are added. -/
def base : Dimension → String
  | .length => "m"
  | .mass => "kg"
  | .volume => "l"
  | .area => "sq-m"
  | .speed => "m/s"
  | .time => "s"

/-- The units of a dimension. -/
def units : Dimension → List Measure
  | .length =>
    [⟨["m", "meter", "metre", "meters", "metres"], 1⟩,
     ⟨["km", "kilometer", "kilometre", "kilometers", "kilometres"], 1000⟩,
     ⟨["cm", "centimeter", "centimetre", "centimeters", "centimetres"], 0.01⟩,
     ⟨["mm", "millimeter", "millimetre", "millimeters", "millimetres"], 0.001⟩,
     ⟨["mi", "mile", "miles"], 1609.344⟩,
     ⟨["yd", "yard", "yards"], 0.9144⟩,
     ⟨["ft", "foot", "feet"], 0.3048⟩,
     ⟨["in", "inch", "inches"], 0.0254⟩,
     ⟨["nm", "nanometer", "nanometre", "nanometers", "nanometres"], 1e-9⟩,
     ⟨["um", "micrometer", "micrometre", "micrometers", "micrometres"], 1e-6⟩,
     ⟨["light-year", "ly", "lightyear"], 9.461e15⟩,
     ⟨["astronomical-unit", "au"], 1.496e11⟩,
     ⟨["parsec", "pc"], 3.086e16⟩,
     -- The name in full and its short forms are kept at different sizes.
     ⟨["angstrom"], 1e-13⟩,
     ⟨["Å", "ang"], 1e-10⟩]
  | .mass =>
    [⟨["kg", "kilogram", "kilograms", "kilo"], 1⟩,
     ⟨["g", "gram", "grams"], 0.001⟩,
     ⟨["mg", "milligram", "milligrams"], 1e-6⟩,
     ⟨["lb", "pound", "pounds", "lbs"], 0.45359237⟩,
     ⟨["oz", "ounce", "ounces"], 0.028349523125⟩,
     ⟨["ton", "short-ton"], 907.18474⟩,
     ⟨["metric-ton", "tonne"], 1000⟩,
     ⟨["slug"], 14.59390⟩,
     ⟨["stone", "st"], 6.35029318⟩,
     ⟨["carat", "ct"], 0.0002⟩,
     ⟨["µg", "ug", "microgram", "micrograms"], 1e-9⟩,
     ⟨["ng", "nanogram", "nanograms"], 1e-12⟩,
     ⟨["pg", "picogram", "picograms"], 1e-15⟩,
     ⟨["dr", "dram", "drams"], 0.028349523125 / 16⟩,
     ⟨["gr", "grain", "grains"], 0.00006479891⟩]
  | .volume =>
    [⟨["l", "liter", "litre", "liters", "litres"], 1⟩,
     ⟨["ml", "milliliter", "millilitre", "milliliters", "millilitres"], 0.001⟩,
     ⟨["gal", "gallon", "gallons"], 3.785411784⟩,
     ⟨["qt", "quart", "quarts"], 0.946352946⟩,
     ⟨["pt", "pint", "pints"], 0.473176473⟩,
     ⟨["cup", "cups"], 0.236588236⟩,
     ⟨["tablespoon", "tablespoons"], 0.01478676478125⟩,
     ⟨["teaspoon", "teaspoons"], 0.00492892159375⟩,
     ⟨["fl-oz", "fluid-ounce", "fluid-ounces"], 0.0295735295625⟩,
     ⟨["cubic-m"], 1000⟩,
     ⟨["cubic-cm"], 0.001⟩,
     ⟨["m³"], 1000⟩,
     ⟨["cm³", "cc"], 0.001⟩,
     ⟨["tbsp", "tbs"], 0.01478676478125⟩,
     ⟨["tsp"], 0.00492892159375⟩]
  | .area =>
    [⟨["sq-m", "m²"], 1⟩,
     ⟨["sq-km", "km²"], 1e6⟩,
     ⟨["sq-cm", "cm²"], 1e-4⟩,
     ⟨["sq-mi", "mi²"], 2589988.110336⟩,
     ⟨["sq-yd", "yd²"], 0.83612736⟩,
     ⟨["sq-ft", "ft²"], 0.09290304⟩,
     ⟨["sq-in", "in²"], 0.00064516⟩,
     ⟨["acre", "acres"], 4046.8564224⟩,
     ⟨["hectare", "hectares", "ha"], 10000⟩,
     ⟨["mm²"], 1e-6⟩]
  | .speed =>
    [⟨["m/s", "meters/second", "metres/second"], 1⟩,
     ⟨["km/h", "kmh", "kilometers/hour", "kilometres/hour"], 0.277778⟩,
     ⟨["mi/h", "mph", "miles/hour"], 0.44704⟩,
     ⟨["ft/s", "fps", "feet/second"], 0.3048⟩,
     ⟨["knot", "knots"], 0.514444⟩,
     ⟨["mach"], 340.29⟩,
     ⟨["c", "lightspeed"], 299792458⟩]
  | .time =>
    [⟨["s", "sec", "second", "seconds"], 1⟩,
     ⟨["ms", "millisecond", "milliseconds"], 0.001⟩,
     ⟨["us", "µs", "microsecond", "microseconds"], 0.000001⟩,
     ⟨["ns", "nanosecond", "nanoseconds"], 1e-9⟩,
     ⟨["ps", "picosecond", "picoseconds"], 1e-12⟩,
     ⟨["fs", "femtosecond", "femtoseconds"], 1e-15⟩,
     ⟨["as", "attosecond", "attoseconds"], 1e-18⟩,
     ⟨["min", "minute", "minutes"], 60⟩,
     ⟨["h", "hour", "hours", "hr"], 3600⟩,
     ⟨["day", "days"], 86400⟩,
     ⟨["week", "weeks"], 604800⟩,
     ⟨["month", "months"], 2592000⟩,
     ⟨["year", "years"], 31536000⟩,
     ⟨["decade"], 315360000⟩,
     ⟨["century"], 3153600000⟩,
     ⟨["millennium"], 31536000000⟩]

/-- Every name of a unit of the dimension with the unit's factor, in order. -/
def entries (d : Dimension) : List (String × Float) :=
  d.units.flatMap fun u => u.names.map (·, u.factor)

end Dimension
end DeskCalc

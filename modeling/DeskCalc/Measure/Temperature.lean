/-!
# Temperatures

The four temperature scales differ in zero and degree.  A conversion goes by way of degrees
Celsius.
-/

namespace DeskCalc

/-- A temperature scale. -/
inductive TemperatureScale where
  | celsius
  | fahrenheit
  | kelvin
  | rankine
deriving Repr, DecidableEq

namespace TemperatureScale

/-- All scales, in order. -/
def all : List TemperatureScale :=
  [.celsius, .fahrenheit, .kelvin, .rankine]

/-- The letter of a scale. -/
def symbol : TemperatureScale → String
  | .celsius => "C"
  | .fahrenheit => "F"
  | .kelvin => "K"
  | .rankine => "R"

/-- The scale with a given letter, a capital. -/
def ofSymbol? (s : String) : Option TemperatureScale :=
  all.find? (·.symbol == s)

/-- A temperature on this scale in degrees Celsius. -/
def toCelsius (scale : TemperatureScale) (t : Float) : Float :=
  match scale with
  | .celsius => t
  | .fahrenheit => (t - 32) * 5 / 9
  | .kelvin => t - 273.15
  | .rankine => (t - 491.67) * 5 / 9

/-- A temperature in degrees Celsius on this scale. -/
def ofCelsius (scale : TemperatureScale) (c : Float) : Float :=
  match scale with
  | .celsius => c
  | .fahrenheit => c * 9 / 5 + 32
  | .kelvin => c + 273.15
  | .rankine => (c + 273.15) * 9 / 5

/-- A temperature of one scale on another. -/
def convert (source target : TemperatureScale) (t : Float) : Float :=
  target.ofCelsius (source.toCelsius t)

end TemperatureScale
end DeskCalc

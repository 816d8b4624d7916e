import DeskCalc.Measure.Dimension
import DeskCalc.Measure.Temperature
import DeskCalc.Text.Blank
import DeskCalc.Text.Lowercase

/-!
# Unit tokens

A unit may be written in any case, in the plural and under an alias.  Its canonical token is the
name that the tables of units are searched for; the name as written and in lower case count too.
-/

namespace DeskCalc.Measure

/-- Names that stand for another name. -/
def aliases : List (String × String) :=
  [("liters", "liter"), ("litres", "litre"), ("lbs", "lb"), ("pounds", "lb"), ("ounces", "oz"),
   ("feet", "ft"), ("inches", "in"), ("hours", "h"), ("minutes", "min"), ("seconds", "s"),
   ("days", "day"), ("weeks", "week"), ("months", "month"), ("years", "year"), ("cups", "cup"),
   ("pints", "pt"), ("quarts", "qt"), ("gallons", "gal"), ("grams", "g"), ("kilograms", "kg"),
   ("kilos", "kg"), ("miles", "mi"), ("yards", "yd"), ("centimeters", "centimeter"),
   ("centimetres", "centimetre"), ("millimeters", "millimeter"), ("millimetres", "millimetre"),
   ("nanometers", "nanometer"), ("nanometres", "nanometre"), ("micrometers", "micrometer"),
   ("micrometres", "micrometre"), ("metres", "metre"), ("meters", "meter"),
   ("kilometres", "kilometre"), ("kilometers", "kilometer"), ("millilitres", "millilitre"),
   ("milliliters", "milliliter")]

/-- Every name of a unit and of a temperature scale. -/
def allNames : List String :=
  Dimension.all.flatMap (fun d => d.entries.map Prod.fst) ++
    TemperatureScale.all.map TemperatureScale.symbol

/-- Whether a name stands in the tables. -/
def isKnown (name : Text) : Bool :=
  allNames.contains (String.ofList name)

/-- The name without the plural ending `ending`, if that is known and the plural is not. -/
def singular? (ending name : Text) : Option Text :=
  let stem := name.take (name.length - ending.length)
  if !isKnown name && ending.length < name.length && name == stem ++ ending && isKnown stem then
    some stem
  else none

/-- The token of a unit: in lower case, without blanks around it, and with its alias or plural
resolved. -/
def canonical (unit : Text) : Text :=
  let name := Text.lower (Text.strip unit)
  match aliases.lookup (String.ofList name) with
  | some token => token.toList
  | none => (singular? ['s'] name).getD ((singular? ['e', 's'] name).getD name)

/-- The names under which a unit is searched for. -/
def candidates (unit : Text) : List String :=
  [canonical unit, unit, Text.lower unit].map String.ofList

/-- The first entry of a table under one of the unit's names. -/
def lookup? {α : Type} (table : List (String × α)) (unit : Text) : Option (String × α) :=
  let names := candidates unit
  table.find? fun e => names.contains e.1

end DeskCalc.Measure

namespace DeskCalc.Dimension

/-- The name and factor of a unit of this dimension. -/
def find? (d : Dimension) (unit : Text) : Option (String × Float) :=
  Measure.lookup? d.entries unit

end DeskCalc.Dimension

namespace DeskCalc.Measure

/-- A unit of some dimension. -/
structure Found where
  dimension : Dimension
  name : String
  factor : Float

/-- The first dimension that has the unit, and the unit there. -/
def find? (unit : Text) : Option Found :=
  Dimension.all.findSome? fun d => (d.find? unit).map fun (name, factor) => ⟨d, name, factor⟩

/-- All names of units and scales, sorted by code points. -/
def sortedNames : List String :=
  (allNames.mergeSort fun a b => a ≤ b).eraseReps

end DeskCalc.Measure

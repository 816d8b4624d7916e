/-!
# Constants

Mathematical and physical constants by name.
-/

namespace DeskCalc.Constant

/-- The ratio of a circle's circumference to its diameter. -/
def pi : Float := 3.141592653589793

/-- The base of the natural logarithm. -/
def euler : Float := 2.718281828459045

/-- All constants, in the order in which they are looked for. -/
def all : List (String × Float) :=
  [("pi", pi), ("e", euler), ("h", 6.62607015e-34), ("c", 299792458), ("G", 6.67430e-11),
   ("hbar", 1.054571817e-34), ("k", 1.380649e-23), ("me", 9.1093837015e-31),
   ("mp", 1.67262192369e-27), ("mn", 1.67492749804e-27), ("qe", 1.602176634e-19),
   ("mu0", 1.25663706212e-6), ("eps0", 8.8541878128e-12), ("alpha", 0.0072973525693),
   ("R", 8.314462618), ("NA", 6.02214076e23), ("F", 96485.33212), ("kB", 1.380649e-23),
   ("sigma", 5.670374419e-8), ("Rydberg", 10973731.568160), ("golden-ratio", 1.618033988749895),
   ("phi", 1.618033988749895), ("silver-ratio", 2.414213562373095),
   ("euler-mascheroni", 0.5772156649015329), ("gamma", 0.5772156649015329),
   ("conway-constant", 1.303577269034296), ("khinchin-constant", 2.685452001065306),
   ("glaisher-kinkelin", 1.2824271291006226)]

/-- All constants, those with longer names first. -/
def byLength : List (String × Float) :=
  all.mergeSort fun a b => b.1.length ≤ a.1.length

end DeskCalc.Constant

/-!
# The guide

What the shell says about itself.
-/

namespace DeskCalc.Shell

/-- The lines that greet the user; with completion there is a hint about it. -/
def greeting (completes : Bool) : List String :=
  ["Cloudy Calculator - Press Ctrl+C to exit",
   "Enter calculations or conversions like: '2 + 2', '5 mi in km' or '32 F to C'"] ++
    if completes then ["Use TAB to complete commands, variables and units"] else []

/-- The lines that `help` shows. -/
def guide : List String :=
  ["",
   "Usage examples:",
   "  2 + 3 * 4            - Basic arithmetic (^ or ** for powers)",
   "  sin(30degrees)       - Functions: sin cos tan sqrt log ln abs floor ceil round",
   "  *2                   - Continue from the last result (@)",
   "  x = 10               - Assign a variable",
   "  x = 5 mi in km       - Assign the number of a conversion result",
   "  5 mi in km           - Convert units",
   "  1 1/2 cup in tbsp    - Fractions and mixed fractions",
   "  5 km - 300 m in mi   - Add or subtract units of one kind",
   "  5 feet 3 inches in cm",
   "  32 F to C            - Temperature (C, F, K, R)",
   "  100 USD to EUR       - Currency (static rates)",
   "  4 + 0xAF in hex      - Number bases (hex, octal, binary, decimal)",
   "  golden-ratio         - Constants",
   "",
   "Commands:",
   "  vars                 - Show all variables",
   "  history              - Show previous inputs",
   "  clear                - Reset variables, history and results",
   "  keep-session         - Keep the session after exiting (for later use)",
   "  help                 - Show this help message",
   "  exit/quit            - Exit the calculator",
   ""]

/-- The lines that explain the switches. -/
def usage : List String :=
  ["options:",
   "  -h, --help           - Show this help message and exit",
   "  -s, --session        - Use an existing session ID",
   "  -k, --keep-session   - Keep the session after exiting",
   "  -n, --new-session    - Create a new session instead of using last session",
   "  -e, --expression     - Evaluate an expression, print the result and exit (repeatable)"]

end DeskCalc.Shell

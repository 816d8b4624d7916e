import DeskCalc.Constant
import DeskCalc.Currency
import DeskCalc.Measure.Token
import DeskCalc.Text.Letter

/-!
# Completion

What a line that is being typed may become.  A line with a target word is completed by a unit, or
by a currency if it already has one; a single word by a command, a variable or a constant.
-/

namespace DeskCalc.Completion

/-- The words that the shell takes as commands. -/
def commands : List String :=
  ["help", "vars", "history", "keep-session", "clear", "exit", "quit"]

/-- The options that begin with what is typed. -/
def beginningWith (typed : Text) (options : List String) : List String :=
  options.filter fun o => typed.isPrefixOf o.toList

/-- What stands before and behind the last place at which `part` occurs, if it does. -/
def cutAtLast? (part : Text) : Text → Option (Text × Text)
  | [] => none
  | c :: rest =>
    match cutAtLast? part rest with
    | some (before, behind) => some (c :: before, behind)
    | none =>
      if part.isPrefixOf (c :: rest) then some ([], (c :: rest).drop part.length) else none

/-- Whether a currency code occurs in the text, in either case. -/
def namesCurrency (s : Text) : Bool :=
  Currency.codes.any fun code => Text.occursIn code.toList (Text.capitals s)

/-- The lines that a line with the target word `keyword` may become. -/
def targets (keyword before typed : Text) (options : List String) : List String :=
  (beginningWith (Text.strip typed) options).map fun o => String.ofList (before ++ keyword) ++ o

/-- What a line of several words may become. -/
def completeLine (line : Text) : List String :=
  let toward := " to ".toList
  let into := " in ".toList
  match cutAtLast? toward line with
  | some (before, typed) =>
    targets toward before typed
      (if namesCurrency before then Currency.codes else Measure.sortedNames)
  | none =>
    match cutAtLast? into line with
    | some (before, typed) => targets into before typed Measure.sortedNames
    | none => []

/-- What a single word may become; nothing typed yet stands for a command only. -/
def completeWord (names : List String) (word : Text) : List String :=
  beginningWith word commands ++
    if word.isEmpty then []
    else beginningWith word names ++ beginningWith word (Constant.all.map Prod.fst)

/-- All that a line may become, given the names of the variables. -/
def complete (names : List String) (line : Text) : List String :=
  if line.contains ' ' then completeLine line else completeWord names line

end DeskCalc.Completion

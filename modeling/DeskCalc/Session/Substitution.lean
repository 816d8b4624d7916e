import DeskCalc.Number.Layout
import DeskCalc.Session.Value
import DeskCalc.Constant
import DeskCalc.Text.Replace

/-!
# Replacing variables

Before an expression is evaluated, the texts of their values are put in the places of the last
result, of the variables and of the two constants `pi` and `e`.  Longer names come first.
-/

namespace DeskCalc.Session

/-- The characters of names. -/
def isNameChar (c : Char) : Bool :=
  c.isAlphanum || c == '_'

/-- The characters that names begin with. -/
def isNameStart (c : Char) : Bool :=
  c.isAlpha || c == '_'

/-- All names in a text, where `taken` holds the characters of the current one, last first. -/
def namesFrom (taken : Text) : Text → List Text
  | [] => if taken.isEmpty then [] else [taken.reverse]
  | c :: rest =>
    if taken.isEmpty then namesFrom (if isNameStart c then [c] else []) rest
    else if isNameChar c then namesFrom (c :: taken) rest
    else taken.reverse :: namesFrom [] rest

/-- The names that a text mentions, each once. -/
def mentionedNames (s : Text) : List String :=
  ((namesFrom [] s).map String.ofList).eraseDups

/-- The text of the last result, zero if it has no finite one. -/
def lastText (bindings : List (String × Json)) : Except Fault Text :=
  match ((bindings.lookup "@").getD .null).leadingNumber with
  | .found x => .ok (if x.isFinite then Number.numberText x else ['0'])
  | .nothing => .ok ['0']
  | .broken e => .error e

/-- Replaces one variable after the other. -/
def replaceVariables (bindings : List (String × Json)) (s : Text) :
    List String → Except Fault Text
  | [] => .ok s
  | name :: names =>
    match bindings.lookup name with
    | none => replaceVariables bindings s names
    | some j => do
      let x ← j.wholeNumber
      replaceVariables bindings (Text.replaceWord name.toList (Number.numberText x) s) names

/-- The expression with the last result, the variables and the constants replaced. -/
def substitute (bindings : List (String × Json)) (s : Text) : Except Fault Text := do
  let last ← lastText bindings
  let s := s.flatMap fun c => if c == '@' then last else [c]
  let names := (mentionedNames s).mergeSort fun a b => b.length ≤ a.length
  let s ← replaceVariables bindings s names
  let s := Text.replaceWord ['p', 'i'] (Number.numberText Constant.pi) s
  return Text.replaceWord ['e'] (Number.numberText Constant.euler) s

end DeskCalc.Session

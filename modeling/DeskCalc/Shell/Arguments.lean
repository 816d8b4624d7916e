import DeskCalc.Text.Shape

/-!
# Arguments

The words behind the program's name set switches.  A switch is a letter behind a dash or a name
behind two; of a name as much is enough as tells it from the others.  A value stands in the next
word or is attached, and letters without values may stand together.

A word that begins with a dash is nevertheless a value if it is a lone dash, a negative number or,
as far as it means no switch, contains a space.
-/

namespace DeskCalc.Shell

open Text (Shape)

/-- What can be set. -/
inductive Switch where
  | help
  | session
  | keep
  | fresh
  | expression
deriving Repr, DecidableEq

namespace Switch

/-- All switches. -/
def all : List Switch :=
  [help, session, keep, fresh, expression]

/-- The letter of a switch. -/
def letter : Switch → Char
  | help => 'h'
  | session => 's'
  | keep => 'k'
  | fresh => 'n'
  | expression => 'e'

/-- The name of a switch. -/
def name : Switch → Text
  | help => "help".toList
  | session => "session".toList
  | keep => "keep-session".toList
  | fresh => "new-session".toList
  | expression => "expression".toList

/-- Whether a switch needs a value. -/
def takesValue : Switch → Bool
  | session => true
  | expression => true
  | _ => false

/-- The switch of a letter. -/
def ofLetter? (c : Char) : Option Switch :=
  all.find? fun s => s.letter == c

/-- The switches whose names begin with a text. -/
def beginningWith (typed : Text) : List Switch :=
  all.filter fun s => typed.isPrefixOf s.name

end Switch

/-- A switch with its value, as far as it is attached. -/
abbrev Setting := Switch × Option Text

/-- What a single word means. -/
inductive Word where
  | value (text : Text)
  /-- a switch by its letter, with what is attached to it -/
  | letter (s : Switch) (attached : Option Text)
  /-- a switch by its name, with what follows an equals sign -/
  | name (s : Switch) (attached : Option Text)
  /-- a beginning of several names -/
  | ambiguous
  /-- no value and no switch -/
  | unknown
deriving Repr, DecidableEq

/-- A negative number without an exponent. -/
def negativeShape : Shape Unit := do
  let _ ← Shape.char '-'
  (do let _ ← Shape.digits; Shape.atEnd) <|> (do
    let _ ← Shape.run Text.isDigit
    let _ ← Shape.char '.'
    let _ ← Shape.digits
    Shape.atEnd)

/-- The meaning of a word with a dash before it that is no switch. -/
def Word.ofStranger (word : Text) : Word :=
  if negativeShape.fits word || word.contains ' ' then value word else unknown

/-- What follows the first equals sign of a text, if there is one. -/
def behindEquals? (s : Text) : Option Text :=
  match s.dropWhile (· ≠ '=') with
  | [] => none
  | _ :: rest => some rest

/-- What follows the letter of a switch as attached to it.  An equals sign right behind the letter
only attaches what comes next. -/
def behindLetter? : Text → Option Text
  | [] => none
  | '=' :: rest => some rest
  | rest => some rest

/-- The meaning of a word. -/
def Word.ofText (word : Text) : Word :=
  match word with
  | '-' :: '-' :: rest =>
    match Switch.beginningWith (rest.takeWhile (· ≠ '=')) with
    | [s] => name s (behindEquals? rest)
    | [] => ofStranger word
    | _ => ambiguous
  | '-' :: c :: rest =>
    match Switch.ofLetter? c with
    | some s => letter s (behindLetter? rest)
    | none => ofStranger word
  | _ => value word

/-- What a switch and the text that is attached to its letter set.  The text is the value of a
switch that takes one; behind the other switches it holds more letters. -/
def letters? (s : Switch) : Text → Option (List Setting)
  | [] => some [(s, none)]
  | c :: rest =>
    if s.takesValue then some [(s, some (c :: rest))]
    else do
      let p ← Switch.ofLetter? c
      return (s, none) :: (← letters? p rest)

/-- What a switch sets with a text, possibly an empty one, that is attached to it as its value. -/
def valued? (s : Switch) (attached : Text) : Option (List Setting) :=
  if s.takesValue then some [(s, some attached)] else none

/-- What a word with a switch sets, if it is in order. -/
def Word.settings? : Word → Option (List Setting)
  | letter s none => some [(s, none)]
  | letter s (some []) => valued? s []
  | letter s (some (c :: rest)) => letters? s (c :: rest)
  | name s none => some [(s, none)]
  | name s (some t) => valued? s t
  | _ => none

/-- What a run of the program is asked for. -/
structure Arguments where
  /-- the session to go on with -/
  session : Option String
  keep : Bool
  fresh : Bool
  /-- the expressions to evaluate; one is missing where dashes stand in its place -/
  expressions : List (Option String)
deriving Repr, DecidableEq

namespace Arguments

/-- Nothing is asked for. -/
def none : Arguments :=
  ⟨Option.none, false, false, []⟩

/-- The value of a setting.  Two dashes are no value, although they are attached. -/
def value? (t : Text) : Option String :=
  if t = "--".toList then Option.none else some (String.ofList t)

/-- The arguments after a setting.  An empty name stands for no session. -/
def set (a : Arguments) : Setting → Arguments
  | (.session, some t) => { a with session := (value? t).filter fun name => !name.isEmpty }
  | (.expression, some t) => { a with expressions := a.expressions ++ [value? t] }
  | (.keep, _) => { a with keep := true }
  | (.fresh, _) => { a with fresh := true }
  | _ => a

end Arguments

/-- What the words come to. -/
inductive Reading where
  | accepted (a : Arguments)
  | help
  | refused
deriving Repr, DecidableEq

/-- The switch of a row of settings that still waits for its value. -/
def waiting? (settings : List Setting) : Option Switch :=
  (settings.find? fun s => s.1.takesValue && s.2.isNone).map Prod.fst

/-- Whether settings call for help. -/
def callsForHelp (settings : List Setting) : Bool :=
  settings.any fun s => s.1 = .help

/-- Reads the rest of the words.  A stray word is noticed only at the end, so that a call for help
behind it is still heard. -/
def readWords : List Word → (stray : Bool) → Arguments → Reading
  | [], stray, a => if stray then .refused else .accepted a
  | .value _ :: rest, _, a => readWords rest true a
  | .unknown :: rest, _, a => readWords rest true a
  | w :: rest, stray, a =>
    match w.settings? with
    | none => .refused
    | some settings =>
      match waiting? settings with
      | none =>
        if callsForHelp settings then .help
        else readWords rest stray (settings.foldl Arguments.set a)
      | some s =>
        match rest with
        | .value v :: rest =>
          if callsForHelp settings then .help
          else readWords rest stray ((settings.foldl Arguments.set a).set (s, some v))
        | _ => .refused

/-- Reads all words.  Two dashes end the switches, and what follows them is stray. -/
def Arguments.read (words : List String) : Reading :=
  let meant := ((words.takeWhile (· ≠ "--")).map fun w => Word.ofText w.toList)
  if meant.contains .ambiguous then .refused
  else readWords meant (words.contains "--") .none

end DeskCalc.Shell

/-!
# Arguments of commands

Commands take options, which begin with hyphens, and other words between them.

* `OptionSpec`: an option of a command.
* `Arguments.read?`: the options and words of a command line, or `none` if it does not fit.
-/

namespace Telemetry

/-- What an option takes. -/
inductive OptionArity where
  /-- No value. -/
  | flag
  /-- A value. -/
  | value
  /-- A value, or none, which stands for `missing`. -/
  | optionalValue (missing : String)
deriving DecidableEq

/-- An option of a command. -/
structure OptionSpec where
  /-- Its name, which stands behind two hyphens. -/
  name : String
  /-- A letter for it, which stands behind one hyphen. -/
  letter : Option Char := none
  arity : OptionArity := .value
deriving DecidableEq

/-- What a command line says. -/
structure Arguments where
  /-- The values of options by name, the last first. A flag has an empty value. -/
  options : List (String × String) := []
  /-- The other words. -/
  words : List String := []
deriving DecidableEq

namespace Arguments

/-- The value of an option. -/
def value? (a : Arguments) (name : String) : Option String := a.options.lookup name

/-- Sets an option, once. -/
def set? (a : Arguments) (name value : String) : Option Arguments :=
  if (a.value? name).isSome then none
  else some { a with options := (name, value) :: a.options }

/-- Adds a word. -/
def addWord (a : Arguments) (word : String) : Arguments := { a with words := a.words ++ [word] }

/-- Whether an argument cannot be the value of the option before it. A single hyphen can. -/
def isOption (argument : String) : Bool := argument.startsWith "-" && argument ≠ "-"

/-- Sets an option that stands alone, with a value from the arguments behind it if it takes one. The
rest of these is left. -/
def setFrom? (a : Arguments) (spec : OptionSpec) (rest : List String) :
    Option (Arguments × List String) := do
  match spec.arity, rest with
  | .flag, rest => return (← a.set? spec.name "", rest)
  | .value, [] => none
  | .value, next :: rest =>
    if isOption next then none else return (← a.set? spec.name next, rest)
  | .optionalValue missing, [] => return (← a.set? spec.name missing, [])
  | .optionalValue missing, next :: rest =>
    if isOption next then return (← a.set? spec.name missing, next :: rest)
    else return (← a.set? spec.name next, rest)

/-- Sets an option with a value that is written together with it. -/
def setWith? (a : Arguments) (spec : OptionSpec) (value : String) : Option Arguments :=
  if spec.arity = .flag then none else a.set? spec.name value

/-- Takes an option named by a word, with a value behind an equals sign if there is one. -/
def takeNamed? (specs : List OptionSpec) (a : Arguments) (text : List Char) (rest : List String) :
    Option (Arguments × List String) := do
  let spec ← specs.find? (·.name.toList == text.takeWhile (· ≠ '='))
  match text.dropWhile (· ≠ '=') with
  | [] => a.setFrom? spec rest
  | _ :: value => return (← a.setWith? spec (String.ofList value), rest)

/-- Takes options named by letters. What stands behind the letter of an option that takes a value is
the value, with or without an equals sign before it. -/
def takeLetters? (specs : List OptionSpec) (a : Arguments) (rest : List String) :
    List Char → Option (Arguments × List String)
  | [] => some (a, rest)
  | letter :: text => do
    let spec ← specs.find? (·.letter == some letter)
    match spec.arity, text with
    | .flag, text => takeLetters? specs (← a.set? spec.name "") rest text
    | _, [] => a.setFrom? spec rest
    | _, '=' :: value => return (← a.setWith? spec (String.ofList value), rest)
    | _, value => return (← a.setWith? spec (String.ofList value), rest)

/-- Takes the first argument, with the value behind it if it is an option that takes one. -/
def take? (specs : List OptionSpec) (a : Arguments) (first : String) (rest : List String) :
    Option (Arguments × List String) :=
  match first.toList with
  | '-' :: '-' :: text => takeNamed? specs a text rest
  | '-' :: letter :: text => takeLetters? specs a rest (letter :: text)
  | _ => some (a.addWord first, rest)

/-- Reads up to `fuel` arguments. Behind two hyphens there are only words. -/
def readFrom? (specs : List OptionSpec) (a : Arguments) :
    (fuel : Nat) → List String → Option Arguments
  | _, [] => some a
  | 0, _ => none
  | fuel + 1, first :: rest => do
    if first = "--" then return { a with words := a.words ++ rest }
    let (a, rest) ← a.take? specs first rest
    readFrom? specs a fuel rest

/-- Reads the arguments of a command. -/
def read? (specs : List OptionSpec) (arguments : List String) : Option Arguments :=
  readFrom? specs {} arguments.length arguments

end Arguments

/-- A number in decimal digits. -/
def digits? (cs : List Char) : Option Nat :=
  if cs.isEmpty || !cs.all Char.isDigit then none
  else some (cs.foldl (fun n c => n * 10 + (c.toNat - '0'.toNat)) 0)

/-- A number that may have a plus sign. -/
def natural? (text : String) : Option Nat :=
  match text.toList with
  | '+' :: cs => digits? cs
  | cs => digits? cs

/-- A number that may have a sign. -/
def integer? (text : String) : Option Int :=
  match text.toList with
  | '-' :: cs => (digits? cs).map fun n => -(n : Int)
  | _ => (natural? text).map Int.ofNat

end Telemetry

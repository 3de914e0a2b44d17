import ChatTint.Command.Settings
import ChatTint.Text.Split

/-!
# Reading a command line

Arguments are read from left to right.  An argument that starts with two dashes
names an option in full, one that starts with one dash is a group of short
names, and any other is a word of the text, as is a dash alone.  Behind two
dashes alone every argument is a word.

Two options take a value, either behind an equals sign or as the next argument,
which must not start with a dash unless it is a dash alone.  A value that is an
argument of its own is looked at when the next argument has been recognized, or
at the end; so an unknown argument behind it is reported first.  Nothing may be
given twice except words.

## Main definitions

* `Flag`, `ValueOption` — the options without and with a value.
* `ArgumentError`, `Interruption` — why reading a command line stops.
* `ArgumentReader` — what has been read, with `ArgumentReader.settle`,
  `ArgumentReader.assign` and one operation for each kind of argument.
* `Settings.ofArguments` — what a command line asks for.
-/

namespace ChatTint

/-! ### Options -/

/-- An option without a value. -/
inductive Flag where
  /-- Use the palette only. -/
  | legacy
  /-- Look for legacy codes. -/
  | check
  /-- Log the decisions of the compiler. -/
  | verbose
  /-- Explain the options. -/
  | help
  /-- Name the version. -/
  | version
deriving DecidableEq

namespace Flag

/-- The flags. -/
def all : List Flag := [legacy, check, verbose, help, version]

/-- The full name, which follows two dashes. -/
def name : Flag → List Char
  | legacy => "legacy".toList
  | check => "check".toList
  | verbose => "verbose".toList
  | help => "help".toList
  | version => "version".toList

/-- The short name, which follows one dash. -/
def letter? : Flag → Option Char
  | legacy => some 'l'
  | check => none
  | verbose => some 'v'
  | help => some 'h'
  | version => some 'V'

/-- The flag of a full name. -/
def ofName? (name : List Char) : Option Flag := all.find? fun flag => flag.name == name

/-- The flag of a short name. -/
def ofLetter? (c : Char) : Option Flag := all.find? fun flag => flag.letter? == some c

end Flag

/-- An option with a value. -/
inductive ValueOption where
  /-- Whether escape sequences are written. -/
  | output
  /-- The number of passes allowed. -/
  | maxPasses
deriving DecidableEq

namespace ValueOption

/-- The options with a value. -/
def all : List ValueOption := [output, maxPasses]

/-- The full name, which follows two dashes. -/
def name : ValueOption → List Char
  | output => "output".toList
  | maxPasses => "max-passes".toList

/-- The option of a full name. -/
def ofName? (name : List Char) : Option ValueOption := all.find? fun option => option.name == name

end ValueOption

/-- The bound below which a number of passes has to stay. -/
def passBound : Nat := Nat.pow 2 64

/-- The number that decimal digits spell. -/
def natOfDigits (digits : List Char) : Nat :=
  digits.foldl (fun n c => 10 * n + (c.toNat - '0'.toNat)) 0

/-- The number of passes that a text spells: decimal digits, perhaps behind a plus
sign, and not too many. -/
def passCount? (text : List Char) : Option Nat :=
  let digits := if text.head? = some '+' then text.tail else text
  if digits.isEmpty || digits.any (fun c => !c.isDigit) then none
  else
    let n := natOfDigits digits
    if n < passBound then some n else none

/-! ### Errors -/

/-- What is wrong with a command line. -/
inductive ArgumentError where
  /-- No option has this name. -/
  | unknown (argument : List Char)
  /-- The option needs a value and has none. -/
  | missingValue (option : ValueOption)
  /-- No policy has this name. -/
  | unknownPolicy (value : List Char)
  /-- The value is no number of passes. -/
  | invalidCount (value : List Char)
  /-- The option has been given before. -/
  | repeated (name : List Char)
  /-- The flag takes no value. -/
  | unexpectedValue (flag : Flag)
deriving DecidableEq

/-- Why reading a command line stops before its end. -/
inductive Interruption where
  /-- Something is wrong. -/
  | error (error : ArgumentError)
  /-- An explanation of the options is asked for. -/
  | help
  /-- The version is asked for. -/
  | version
deriving DecidableEq

/-! ### Reading -/

/-- What has been read of a command line. -/
structure ArgumentReader where
  /-- The words of the text. -/
  words : List (List Char) := []
  /-- Whether the palette was asked for. -/
  palette : Bool := false
  /-- Whether a search for codes was asked for. -/
  check : Bool := false
  /-- Whether a log was asked for. -/
  verbose : Bool := false
  /-- Whether escape sequences are written, if given. -/
  escapes : Option EscapePolicy := none
  /-- The number of passes, if given. -/
  maxPasses : Option Nat := none
  /-- An option whose value is, or will be, an argument of its own. -/
  waiting : Option (ValueOption × Option (List Char)) := none
deriving DecidableEq

namespace ArgumentReader

/-- Gives an option its value. -/
def assign (r : ArgumentReader) (value : List Char) :
    ValueOption → Except Interruption ArgumentReader
  | .output =>
    if r.escapes.isSome then .error (.error (.repeated (ValueOption.name .output)))
    else match EscapePolicy.ofName? value with
      | some policy => .ok { r with escapes := some policy }
      | none => .error (.error (.unknownPolicy value))
  | .maxPasses =>
    if r.maxPasses.isSome then .error (.error (.repeated (ValueOption.name .maxPasses)))
    else match passCount? value with
      | some n => .ok { r with maxPasses := some n }
      | none => .error (.error (.invalidCount value))

/-- Gives the waiting option its value. -/
def settle (r : ArgumentReader) : Except Interruption ArgumentReader :=
  match r.waiting with
  | none => .ok r
  | some (option, none) => .error (.error (.missingValue option))
  | some (option, some value) => { r with waiting := none }.assign value option

/-- Sets a flag. -/
def set (r : ArgumentReader) (flag : Flag) : Except Interruption ArgumentReader := do
  let r ← r.settle
  match flag with
  | .legacy =>
    if r.palette then .error (.error (.repeated flag.name)) else .ok { r with palette := true }
  | .check =>
    if r.check then .error (.error (.repeated flag.name)) else .ok { r with check := true }
  | .verbose =>
    if r.verbose then .error (.error (.repeated flag.name)) else .ok { r with verbose := true }
  | .help => .error .help
  | .version => .error .version

/-- Reads an argument behind its two dashes.  A value may follow an equals sign. -/
def long (r : ArgumentReader) (body : List Char) : Except Interruption ArgumentReader :=
  let (name, value) := cutAt '=' body
  match ValueOption.ofName? name, Flag.ofName? name, value with
  | some option, _, some value => do (← r.settle).assign value option
  | some option, _, none => do return { ← r.settle with waiting := some (option, none) }
  | none, some flag, some _ => .error (.error (.unexpectedValue flag))
  | none, some flag, none => r.set flag
  | none, none, _ => .error (.error (.unknown ('-' :: '-' :: body)))

/-- Reads one short name of a group. -/
def short (r : ArgumentReader) (c : Char) : Except Interruption ArgumentReader :=
  match Flag.ofLetter? c with
  | some flag => r.set flag
  | none => .error (.error (.unknown ['-', c]))

/-- Reads an argument that can be nothing but a word. -/
def word (r : ArgumentReader) (w : List Char) : Except Interruption ArgumentReader := do
  let r ← r.settle
  return { r with words := r.words ++ [w] }

/-- Reads an argument that does not start with a dash: a value, if an option waits for
one, and else a word. -/
def plain (r : ArgumentReader) (w : List Char) : Except Interruption ArgumentReader :=
  match r.waiting with
  | some (option, none) => .ok { r with waiting := some (option, some w) }
  | _ => r.word w

/-- Reads arguments. -/
def read (r : ArgumentReader) : List (List Char) → Except Interruption ArgumentReader
  | [] => r.settle
  | argument :: rest =>
    if argument = ['-', '-'] then do (← rest.foldlM word r).settle
    else match argument with
      | '-' :: '-' :: body => do (← r.long body).read rest
      | '-' :: c :: s => do (← (c :: s).foldlM short r).read rest
      | _ => do (← r.plain argument).read rest

/-- What a command line that has been read asks for. -/
def settings (r : ArgumentReader) : Settings where
  words := r.words
  depth := if r.palette then .palette else .full
  escapes := r.escapes.getD .auto
  check := r.check
  maxPasses := r.maxPasses.getD defaultMaxPasses
  verbose := r.verbose

end ArgumentReader

/-- What a command line asks for, or why it was not read to its end. -/
def Settings.ofArguments (arguments : List (List Char)) : Except Interruption Settings :=
  (ArgumentReader.read {} arguments).map ArgumentReader.settings

end ChatTint

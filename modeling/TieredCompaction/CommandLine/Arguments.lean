import TieredCompaction.Decimal.Reading
import TieredCompaction.Size.Reading
/-!
Arguments of a command line. An option has a long name and possibly a letter; options with a value
take it from the same argument (`--name=value`, `-xvalue`, `-x=value`) or from the next one. After
`--` all arguments are words. Arguments are looked at one by one, and the first one that is refused
or asks for help decides.
-/
namespace TieredCompaction.CommandLine

inductive ValueKind where
  | number
  | count
  | size
  | path
  deriving DecidableEq, Repr

/-- Whether a value is one of its kind. A path has at least one character. -/
def ValueKind.accepts : ValueKind → List Char → Bool
  | number, s => (Decimal.readNumber s).isSome
  | count, s => (Decimal.readWord s).isSome
  | size, s => (Size.read s).toOption.isSome
  | path, s => !s.isEmpty

inductive Arity where
  | flag
  | counted
  /-- A question for help, which ends the reading. -/
  | help
  /-- With one value, which has a name of its own and may have a standard. -/
  | valued (kind : ValueKind) (name : String) (standard : Option String)
  deriving DecidableEq, Repr

structure OptionSpec where
  name : String
  letter : Option Char := none
  arity : Arity
  about : String
  deriving DecidableEq, Repr

structure WordSpec where
  name : String
  kind : ValueKind
  /-- Whether further ones may follow. -/
  many : Bool := false
  about : String
  deriving DecidableEq, Repr

/-- What may be given: options, words in order, and the commands of which one follows. -/
structure Usage where
  call : String
  about : String
  /-- What only the long form of help says. -/
  more : Option String := none
  options : List OptionSpec := []
  words : List WordSpec := []
  commands : List (String × String) := []
  deriving DecidableEq, Repr

/-- How much help is asked for: little by the letter of the option, much by its name. -/
inductive HelpForm where
  | short
  | long
  deriving DecidableEq, Repr

structure Given where
  spec : OptionSpec
  value : String
  deriving DecidableEq, Repr

inductive UsageError where
  | unknownOption (argument : String)
  | missingValue (option : String)
  | unexpectedValue (option : String)
  | repeated (option : String)
  | unexpectedWord (word : String)
  | missingCommand
  | invalidValue (name : String)
  deriving DecidableEq, Repr

/-- What ends the reading of arguments before the last one. -/
inductive Stop where
  | help (usage : Usage) (form : HelpForm)
  | refused (cause : UsageError)
  deriving DecidableEq, Repr

/-- The options given, the words among them, and the arguments that were not looked at. -/
structure Scanned where
  given : List Given := []
  words : List String := []
  rest : List String := []
  deriving DecidableEq, Repr

namespace Scanned

/-- One more option. Only options that are counted may be given more than once. -/
def addGiven (s : Scanned) (g : Given) : Except Stop Scanned :=
  if g.spec.arity ≠ .counted ∧ s.given.any (·.spec.name = g.spec.name) then
    .error (.refused (.repeated g.spec.name))
  else match g.spec.arity with
    | .valued kind .. =>
      if kind.accepts g.value.toList then .ok { s with given := s.given ++ [g] }
      else .error (.refused (.invalidValue g.spec.name))
    | _ => .ok { s with given := s.given ++ [g] }

def addWord (u : Usage) (s : Scanned) (word : String) : Except Stop Scanned :=
  match u.words[s.words.length]? with
  | some spec =>
    if spec.kind.accepts word.toList then .ok { s with words := s.words ++ [word] }
    else .error (.refused (.invalidValue word))
  | none => .error (.refused (.unexpectedWord word))

end Scanned

/-- The options among the letters of one argument. The value of an option is the rest of the
argument, or the next one if there is no rest. The flag tells whether the next one was taken. -/
def scanLetters (u : Usage) (next : Option String) :
    Scanned → List Char → Except Stop (Scanned × Bool)
  | s, [] => .ok (s, false)
  | s, letter :: rest =>
    match u.options.find? (·.letter = some letter) with
    | none => .error (.refused (.unknownOption (String.singleton letter)))
    | some spec =>
      match spec.arity, rest, next with
      | .help, _, _ => .error (.help u .short)
      | .valued .., '=' :: value, _ =>
        (·, false) <$> s.addGiven { spec, value := String.ofList value }
      | .valued .., _ :: _, _ => (·, false) <$> s.addGiven { spec, value := String.ofList rest }
      | .valued .., [], some value => (·, true) <$> s.addGiven { spec, value }
      | .valued .., [], none => .error (.refused (.missingValue spec.name))
      | _, _, _ => do scanLetters u next (← s.addGiven { spec, value := "" }) rest

def isValue (argument : String) : Bool :=
  !argument.startsWith "-" || argument == "-"

/-- The option of a long argument without its dashes. The flag tells whether the next one was taken
as its value. -/
def scanLong (u : Usage) (next : Option String) (s : Scanned) (body : List Char) :
    Except Stop (Scanned × Bool) :=
  let name := String.ofList (body.takeWhile (· ≠ '='))
  match u.options.find? (·.name = name) with
  | none => .error (.refused (.unknownOption name))
  | some spec =>
    match spec.arity, body.dropWhile (· ≠ '='), next with
    | .valued .., _ :: value, _ => (·, false) <$> s.addGiven { spec, value := String.ofList value }
    | .valued .., [], some value => (·, true) <$> s.addGiven { spec, value }
    | .valued .., [], none => .error (.refused (.missingValue name))
    | _, _ :: _, _ => .error (.refused (.unexpectedValue name))
    | .help, [], _ => .error (.help u .long)
    | _, [], _ => (·, false) <$> s.addGiven { spec, value := "" }

/-- The options of one argument that starts with a dash. -/
def scanOption (u : Usage) (next : Option String) (s : Scanned) (argument : String) :
    Except Stop (Scanned × Bool) :=
  match argument.toList with
  | '-' :: '-' :: body => scanLong u next s body
  | letters => scanLetters u next s (letters.drop 1)

/-- Looks at arguments behind those scanned, up to the first word if `toWord`. -/
def scan (u : Usage) (toWord : Bool) (s : Scanned) : List String → Except Stop Scanned
  | [] => .ok s
  | argument :: rest => do
    if argument = "--" then
      if toWord then return { s with rest := argument :: rest }
      else rest.foldlM (Scanned.addWord u) s
    else if isValue argument then
      if toWord then return { s with rest := argument :: rest }
      else scan u toWord (← s.addWord u argument) rest
    else match rest with
      | [] => return (← scanOption u none s argument).1
      | next :: others =>
        let (s, taken) ← scanOption u ((some next).filter isValue) s argument
        if taken then scan u toWord s others else scan u toWord s (next :: others)

def valueOf (given : List Given) (name : String) : Option String :=
  (given.find? (·.spec.name = name)).map (·.value)

end TieredCompaction.CommandLine

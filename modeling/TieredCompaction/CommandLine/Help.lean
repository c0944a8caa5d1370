import TieredCompaction.CommandLine.Arguments
/-!
Help for what may be given on a command line. The short form has a line for each entry, with the
explanations in one column; the long form sets them on lines of their own. A usage that has no more
to say in the long form is shown in the short one.
-/
namespace TieredCompaction.CommandLine

/-- Something that help explains, with its value if none is given. -/
structure HelpEntry where
  head : String
  about : String
  standard : Option String := none

namespace HelpEntry

private def blanks (n : Nat) : String :=
  "".pushn ' ' n

private def standardNote (value : String) : String :=
  s!"[default: {value}]"

/-- An entry on one line. The explanation starts two columns behind a head of the width given. -/
def line (width : Nat) (e : HelpEntry) : String :=
  "  " ++ e.head ++ blanks (width - e.head.length + 2) ++
    " ".intercalate (e.about :: (e.standard.map standardNote).toList)

/-- An entry on lines of its own, the standard value in a paragraph of its own. -/
def block (e : HelpEntry) : List String :=
  let note := match e.standard with
    | none => []
    | some value => ["", standardNote value]
  ("  " ++ e.head) :: (e.about :: note).map (blanks 10 ++ ·)

end HelpEntry

/-- An option with its letter, its name, its value, and dots if it may be repeated. -/
def OptionSpec.head (spec : OptionSpec) : String :=
  let letter := match spec.letter with
    | some c => "-" ++ String.singleton c ++ ", "
    | none => "    "
  let value := match spec.arity with
    | .valued _ name _ => s!" <{name}>"
    | .counted => "..."
    | _ => ""
  letter ++ "--" ++ spec.name ++ value

/-- A word in brackets, since it may be left out. -/
def WordSpec.head (spec : WordSpec) : String :=
  s!"[{spec.name}]" ++ if spec.many then "..." else ""

namespace Usage

def shownForm (u : Usage) (asked : HelpForm) : HelpForm :=
  if u.more.isSome then asked else .short

/-- The entry of an option. The one for help names the other form, if there are two. -/
def optionEntry (u : Usage) (form : HelpForm) (spec : OptionSpec) : HelpEntry :=
  let other := match spec.arity, u.more, form with
    | .help, some _, .short => " (see more with '--help')"
    | .help, some _, .long => " (see a summary with '-h')"
    | _, _, _ => ""
  let standard := match spec.arity with
    | .valued _ _ standard => standard
    | _ => none
  { head := spec.head, about := spec.about ++ other, standard }

/-- The call, with what may and what has to follow it. -/
def callLine (u : Usage) : String :=
  let options := if u.options.isEmpty then [] else ["[OPTIONS]"]
  let command := if u.commands.isEmpty then [] else ["<COMMAND>"]
  "Usage: " ++ " ".intercalate (u.call :: options ++ u.words.map (·.head) ++ command)

end Usage

/-- Entries under a heading, or nothing if there are none. -/
def helpPart (form : HelpForm) (heading : String) (entries : List HelpEntry) :
    List (List String) :=
  if entries.isEmpty then []
  else
    let width := (entries.map (·.head.length)).foldl max 0
    let lines := match form with
      | .short => entries.map (·.line width)
      | .long => [""].intercalate (entries.map (·.block))
    [heading :: lines]

def Usage.help (u : Usage) (asked : HelpForm) : List String :=
  let form := u.shownForm asked
  let more := match form with
    | .short => []
    | .long => u.more.toList
  let commands := u.commands.map fun (name, about) => ({ head := name, about } : HelpEntry)
  let words := u.words.map fun spec => ({ head := spec.head, about := spec.about } : HelpEntry)
  [""].intercalate
    ((u.about :: more ++ [u.callLine]).map (fun line => [line]) ++
      helpPart form "Commands:" commands ++ helpPart form "Arguments:" words ++
      helpPart form "Options:" (u.options.map (u.optionEntry form)))

end TieredCompaction.CommandLine

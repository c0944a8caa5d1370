import TieredCompaction.Text.Quoted
/-!
What can go wrong, as causes, and the messages.
-/
namespace TieredCompaction

inductive ConfigError where
  | unknownOption (key : String)
  | unparseable (key value : String)
  | outOfRange (key value : String)
  | invalidThresholds (least greatest : Nat)
  deriving DecidableEq, Repr

inductive Failure where
  | io (message : String)
  | config (cause : ConfigError)
  | cancelled
  deriving DecidableEq, Repr

open Text (quoted)

/-- A record as messages show it: its name and its fields between braces. -/
def shown (name : String) (fields : List (String × String)) : String :=
  let texts := fields.map fun (key, value) => key ++ ": " ++ value
  name ++ " \x7b " ++ String.intercalate ", " texts ++ " \x7d"

namespace ConfigError

/-- The message on its own. -/
def message : ConfigError → String
  | unknownOption key => "unknown compaction option " ++ quoted key
  | unparseable key value => "could not parse " ++ key ++ "=" ++ quoted value
  | outOfRange key value => key ++ "=" ++ quoted value ++ " is out of range"
  | invalidThresholds least greatest => s!"invalid thresholds min={least} max={greatest}"

/-- The cause as it stands within a failure's message. -/
def detail : ConfigError → String
  | unknownOption key => "UnknownOption(" ++ quoted key ++ ")"
  | unparseable key value => shown "Unparseable" [("key", quoted key), ("value", quoted value)]
  | outOfRange key value => shown "OutOfRange" [("key", quoted key), ("value", quoted value)]
  | invalidThresholds least greatest =>
    shown "InvalidThresholds" [("min", toString least), ("max", toString greatest)]

end ConfigError

namespace Failure

def detail : Failure → String
  | io message => "Io(" ++ shown "Custom" [("kind", "Other"), ("error", quoted message)] ++ ")"
  | config cause => "Config(" ++ cause.detail ++ ")"
  | cancelled => "Cancelled"

def message (f : Failure) : String :=
  "CompactionError: " ++ f.detail

/-- What lies behind the failure, where it comes from outside. -/
def source? : Failure → Option String
  | io message => some message
  | _ => none

end Failure

end TieredCompaction

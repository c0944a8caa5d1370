import TieredCompaction.Failure
import TieredCompaction.Text.Lines
/-!
Files and folders, as far as a log needs them: a folder maps names to texts and to further folders.
-/
namespace TieredCompaction

inductive PathError where
  | notFound
  | notFolder
  | isFolder
  | nameTooLong
  | nullCharacter
  deriving DecidableEq, Repr

namespace PathError

def reason : PathError → String
  | notFound => "No such file or directory"
  | notFolder => "Not a directory"
  | isFolder => "Is a directory"
  | nameTooLong => "File name too long"
  | nullCharacter => "file name contained an unexpected NUL byte"

def kind : PathError → String
  | notFound => "NotFound"
  | notFolder => "NotADirectory"
  | isFolder => "IsADirectory"
  | nameTooLong => "InvalidFilename"
  | nullCharacter => "InvalidInput"

/-- The number by which the operating system knows the error. A path with a null character never
gets there. -/
def code? : PathError → Option Nat
  | notFound => some 2
  | notFolder => some 20
  | isFolder => some 21
  | nameTooLong => some 36
  | nullCharacter => none

def message (e : PathError) : String :=
  match e.code? with
  | some code => s!"{e.reason} (os error {code})"
  | none => e.reason

def detail (e : PathError) : String :=
  let last := ("message", Text.quoted e.reason)
  match e.code? with
  | some code => shown "Os" [("code", toString code), ("kind", e.kind), last]
  | none => shown "Error" [("kind", e.kind), last]

end PathError

/-- A file with its text, or a folder with its entries, no two of one name. -/
inductive Node where
  | file (text : String)
  | folder (entries : List (String × Node))

abbrev Folder := List (String × Node)

namespace Folder

def get? (d : Folder) (name : String) : Option Node :=
  d.lookup name

def has (d : Folder) (name : String) : Bool :=
  (d.get? name).isSome

/-- Sets an entry: in its old place if there is one of its name, else at the end. -/
def put : Folder → String → Node → Folder
  | [], name, node => [(name, node)]
  | (key, old) :: rest, name, node =>
    if key = name then (key, node) :: rest else (key, old) :: put rest name node

def erase (d : Folder) (name : String) : Folder :=
  d.filter (·.1 != name)

def rename (d : Folder) (old new : String) : Folder :=
  match d.get? old with
  | some node => put (d.erase old) new node
  | none => d

/-- Adds to the end of a file, which is made if it does not exist. -/
def append (d : Folder) (name text : String) : Folder :=
  match d.get? name with
  | some (.file old) => put d name (.file (old ++ text))
  | _ => put d name (.file text)

end Folder

/-- Where something lies: the names of the folders from the root to it, and its own. -/
abbrev Place := List String

namespace Node

def pathPieces (path : String) : List String :=
  let (pieces, last) := Text.cutAfter '/' path.toList
  (pieces ++ [last]).map String.ofList

/-- The path of an entry of a folder. A name that starts at the root stands for itself. -/
def pathIn (folder name : String) : String :=
  if name.toList.head? = some '/' then name
  else if folder.toList.getLast? = some '/' then folder ++ name
  else folder ++ "/" ++ name

def maxName : Nat := 255

def maxPath : Nat := 4095

/-- What is wrong with a path wherever it leads. -/
def pathFault (path : String) : Option PathError :=
  if path.toList.contains '\x00' then some .nullCharacter
  else if maxPath < path.utf8ByteSize then some .nameTooLong
  else none

def get? : Node → Place → Option Node
  | node, [] => some node
  | .file _, _ :: _ => none
  | .folder entries, name :: rest =>
    match Folder.get? entries name with
    | some node => node.get? rest
    | none => none

/-- Sets what lies at a place, as long as the folder it is in exists. -/
def set : Node → Place → Node → Node
  | _, [], new => new
  | .file text, _ :: _, _ => .file text
  | .folder entries, [name], new => .folder (Folder.put entries name new)
  | .folder entries, name :: rest, new =>
    match Folder.get? entries name with
    | some node => .folder (Folder.put entries name (node.set rest new))
    | none => .folder entries

/-- One step of a path, which has to start from a folder. An empty step and a dot stay there, two
dots lead to the folder around it, and the root is around itself. -/
def step (root : Node) (place : Place) (piece : String) : Except PathError Place :=
  match root.get? place with
  | some (.folder entries) =>
    if piece = "" ∨ piece = "." then .ok place
    else if piece = ".." then .ok place.dropLast
    else if maxName < piece.utf8ByteSize then .error .nameTooLong
    else if Folder.has entries piece then .ok (place ++ [piece])
    else .error .notFound
  | some (.file _) => .error .notFolder
  | none => .error .notFound

def locate (root : Node) (path : String) : Except PathError Place :=
  match pathFault path with
  | some e => .error e
  | none => (pathPieces path).foldlM root.step []

def resolve (root : Node) (path : String) : Except PathError Node := do
  match root.get? (← root.locate path) with
  | some node => .ok node
  | none => .error .notFound

/-- The place and the entries of the folder at a path, in which an entry of the name given can be
reached. -/
def folderFor (root : Node) (path name : String) : Except PathError (Place × Folder) := do
  if let some e := pathFault (pathIn path name) then .error e
  let place ← root.locate path
  match root.get? place with
  | some (.folder entries) => .ok (place, entries)
  | some (.file _) => .error .notFolder
  | none => .error .notFound

end Node

end TieredCompaction

/-!
Sizes read from text such as `1.5k` or `50MiB`: a decimal with an optional exponent, then an
optional unit. Units are powers of 1024.
-/
namespace TieredCompaction.Size

inductive ReadError where
  | empty
  | invalidDigit
  | tooLarge
  deriving DecidableEq, Repr

def ReadError.message : ReadError → String
  | empty => "cannot parse integer from empty string"
  | invalidDigit => "invalid digit found in string"
  | tooLarge => "number too large to fit in target type"

/-- The power of 1024 that a unit letter stands for. -/
def unitPower (c : Char) : Option Nat :=
  ['k', 'm', 'g', 't', 'p', 'e'].findIdx? (· = c.toLower) |>.map (· + 1)

/-- Takes a unit off the end of a reversed text: an optional `b`, then an optional `i`, then an
optional unit letter. The result is the rest, still reversed, and the unit. -/
def takeUnit (reversed : List Char) : List Char × Nat :=
  let dropLetter (letter : Char) : List Char → List Char
    | c :: rest => if c.toLower = letter then rest else c :: rest
    | [] => []
  match dropLetter 'i' (dropLetter 'b' reversed) with
  | c :: rest =>
    match unitPower c with
    | some power => (rest, Nat.pow 1024 power)
    | none => (c :: rest, 1)
  | [] => ([], 1)

/-- The part of a number in which the next character stands. In a full part the mantissa has no
room for another digit. -/
inductive Part where
  | blank
  | whole
  | wholeFull
  | fraction
  | fractionFull
  | exponent
  | negativeExponent
  deriving DecidableEq, Repr

structure Scan where
  part : Part
  mantissa : Nat
  /-- The power of ten that the place of the point contributes. -/
  shift : Int
  exponent : Int
  deriving DecidableEq, Repr

def fits (n : Nat) : Bool :=
  n < UInt64.size

/-- One more digit. A digit that does not fit is dropped; the first one dropped rounds the
mantissa, and dropped digits before the point count into the exponent. -/
def Scan.digit (s : Scan) (d : Nat) : Except ReadError Scan :=
  let longer := 10 * s.mantissa + d
  let rounded := if 5 ≤ d then s.mantissa + 1 else s.mantissa
  match s.part with
  | .blank | .whole =>
    if fits longer then .ok { s with part := .whole, mantissa := longer }
    else .ok { s with part := .wholeFull, mantissa := rounded, shift := s.shift + 1 }
  | .wholeFull => .ok { s with shift := s.shift + 1 }
  | .fraction =>
    if fits longer then .ok { s with mantissa := longer, shift := s.shift - 1 }
    else .ok { s with part := .fractionFull, mantissa := rounded }
  | .fractionFull => .ok s
  | .exponent =>
    let exponent := 10 * s.exponent + d
    if exponent < Nat.pow 2 31 then .ok { s with exponent } else .error .tooLarge
  | .negativeExponent =>
    let exponent := 10 * s.exponent - d
    .ok (if -(Nat.pow 2 31 : Nat) ≤ exponent then { s with exponent } else s)

/-- One more character. Underlines and spaces are passed over. -/
def Scan.step (s : Scan) (c : Char) : Except ReadError Scan :=
  if c.isDigit then s.digit (c.toNat - '0'.toNat)
  else if c = '_' ∨ c = ' ' then .ok s
  else match s.part, c with
    | .exponent, '+' => .ok s
    | .exponent, '-' => .ok { s with part := .negativeExponent }
    | .whole, '.' => .ok { s with part := .fraction }
    | .wholeFull, '.' => .ok { s with part := .fractionFull }
    | .whole, 'e' | .whole, 'E' | .wholeFull, 'e' | .wholeFull, 'E' | .fraction, 'e'
    | .fraction, 'E' | .fractionFull, 'e' | .fractionFull, 'E' => .ok { s with part := .exponent }
    | _, _ => .error .invalidDigit

/-- `mantissa · 10 ^ exponent` units. A negative power rounds half up; otherwise each product on
the way has to fit 64 bits. -/
def scaled (mantissa unit : Nat) (exponent : Int) : Except ReadError Nat :=
  if exponent < -38 then .ok 0
  else if exponent < 0 then
    let power := Nat.pow 10 exponent.natAbs
    let size := (mantissa * unit + power / 2) / power
    if fits size then .ok size else .error .tooLarge
  else if 20 ≤ exponent then .error .tooLarge
  else
    let power := Nat.pow 10 exponent.natAbs
    if fits power && fits (unit * power) && fits (mantissa * (unit * power)) then
      .ok (mantissa * (unit * power))
    else .error .tooLarge

def read (s : List Char) : Except ReadError Nat := do
  let (reversed, unit) := takeUnit s.reverse
  let scan ← reversed.reverse.foldlM Scan.step ⟨.blank, 0, 0, 0⟩
  if scan.part = .blank then .error .empty
  else scaled scan.mantissa unit (scan.exponent + scan.shift)

end TieredCompaction.Size

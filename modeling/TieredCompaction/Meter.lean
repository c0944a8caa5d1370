import TieredCompaction.Quantity
import TieredCompaction.Decimal.Fixed
/-!
Read rates of a table. Reads are counted in intervals of five seconds; each full interval is folded
into one moving average per window. A meter that was idle folds all its intervals at once, at the
next operation.
-/
namespace TieredCompaction

variable {R : Type} [Quantity R]

/-- A moving average. The first interval sets the rate, each later one moves it by `weight`. -/
structure Average (R : Type) where
  weight : R
  rate : R
  started : Bool

/-- A rate from outside: a finite number, or none to be used. -/
inductive GivenRate (R : Type) where
  | finite (rate : R)
  | unusable

def GivenRate.ofFloat (x : Float) : GivenRate Float :=
  if x.isFinite then finite x else unusable

/-- A negative rate counts as zero, and so does an unusable one. -/
def GivenRate.clamped : GivenRate R → R
  | finite rate => if Quantity.le (Quantity.ofNat 0) rate then rate else Quantity.ofNat 0
  | unusable => Quantity.ofNat 0

/-- The power by repeated squaring, for exponents below `2 ^ rounds`; `product` is multiplied on. -/
def powerOnto (product base : R) (exponent : Nat) : Nat → R
  | 0 => product
  | rounds + 1 =>
    let product := if exponent % 2 = 1 then product * base else product
    if exponent / 2 = 0 then product else powerOnto product (base * base) (exponent / 2) rounds

/-- The power of a number to an exponent of at most 31 bits. -/
def power (base : R) (exponent : Nat) : R :=
  powerOnto (Quantity.ofNat 1) base exponent 31

namespace Average

def fresh (weight : R) : Average R :=
  { weight, rate := Quantity.ofNat 0, started := false }

/-- Folds in an interval with `count` reads. -/
def fold (a : Average R) (count : Nat) : Average R :=
  let seen := Quantity.ofNat count / Quantity.ofNat 5
  if a.started then { a with rate := a.rate + a.weight * (seen - a.rate) }
  else { a with rate := seen, started := true }

/-- Folds in intervals without reads. No more than `2 ^ 31 - 1` of them count. -/
def idle (a : Average R) (intervals : Nat) : Average R :=
  if intervals = 0 then a
  else { a with
    rate := a.rate * power (Quantity.ofNat 1 - a.weight) (min intervals (Nat.pow 2 31 - 1)) }

/-- Forgets all reads in favour of a rate. -/
def restore (a : Average R) (rate : GivenRate R) : Average R :=
  { a with rate := rate.clamped, started := true }

end Average

/-- The averages of a table, and the reads of the open interval. Instants are in nanoseconds. -/
structure Meter (R : Type) where
  short : Average R
  long : Average R
  uncounted : Nat
  lastTick : Int
  /-- All reads ever, modulo `2 ^ 64`. -/
  count : Nat

namespace Meter

def interval : Nat := 5000000000

/-- A meter that starts at an instant, with a weight for each average. -/
def withWeights (short long : R) (now : Int) : Meter R :=
  { short := .fresh short, long := .fresh long, uncounted := 0, lastTick := now, count := 0 }

def fresh (now : Int) : Meter R :=
  withWeights (Quantity.weight .short) (Quantity.weight .long) now

/-- Folds in the intervals that have ended by `now`: the first one with the reads counted, the
others without any. A clock that went back ends none. -/
def catchUp (m : Meter R) (now : Int) : Meter R :=
  let age := (now - m.lastTick).toNat
  let intervals := age / interval
  if intervals = 0 then m
  else
    { m with
      short := (m.short.fold m.uncounted).idle (intervals - 1)
      long := (m.long.fold m.uncounted).idle (intervals - 1)
      uncounted := 0
      lastTick := now - (age % interval : Nat) }

def mark (m : Meter R) (reads : Nat) (now : Int) : Meter R :=
  let m := m.catchUp now
  { m with
    uncounted := min (m.uncounted + reads) (UInt64.size - 1)
    count := (m.count + reads) % UInt64.size }

/-- The average over a window, as of the last catching up. -/
def average (m : Meter R) : Window → R
  | .short => m.short.rate
  | .long => m.long.rate

def rate (m : Meter R) (window : Window) (now : Int) : R :=
  (m.catchUp now).average window

/-- Reads a rate, and keeps what was folded in for it. -/
def sample (m : Meter R) (window : Window) (now : Int) : R × Meter R :=
  (m.rate window now, m.catchUp now)

/-- Sets both rates as of `now` and forgets the reads of the open interval. -/
def restore (m : Meter R) (short long : GivenRate R) (now : Int) : Meter R :=
  { m with
    short := m.short.restore short
    long := m.long.restore long
    uncounted := 0
    lastTick := now }

def detail (m : Meter Float) (now : Int) : String :=
  "ReadMeter(short=" ++ Decimal.fixed 3 (m.rate .short now) ++ "/s, long=" ++
    Decimal.fixed 3 (m.rate .long now) ++ "/s)"

end Meter

end TieredCompaction

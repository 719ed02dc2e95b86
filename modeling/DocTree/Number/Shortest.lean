import DocTree.Number.Binary64
import DocTree.Number.Integer

/-! The decimal text of a double-precision number: the fewest digits that round back to it, the
nearest of those, the larger of two equally near; written in positions, never with an exponent. -/

namespace DocTree.Binary64

/-- The reals that round to a number, as numerators over one denominator; the ends are included iff
the significand is even. -/
structure Interval where
  low : Nat
  value : Nat
  high : Nat
  denominator : Nat
  closed : Bool
  deriving Repr

def interval (x : Binary64) : Interval :=
  let m := x.significand
  let narrow := m == Nat.pow 2 52 && -1074 < x.exponent
  let (unit, denominator) := scale 1 1 (x.exponent - 2)
  { low := (4 * m - if narrow then 1 else 2) * unit
    value := 4 * m * unit
    high := (4 * m + 2) * unit
    denominator
    closed := m % 2 == 0 }

def Interval.holds (i : Interval) (a b c : Nat) : Bool :=
  if i.closed then i.low * a ≤ c * b && c * b ≤ i.high * a
  else i.low * a < c * b && c * b < i.high * a

def Interval.onGrid? (i : Interval) (p : Int) : Option Nat :=
  let a := Nat.pow 10 (-p).toNat
  let b := i.denominator * Nat.pow 10 p.toNat
  let c := i.value * a / b
  match i.holds a b c, i.holds a b (c + 1) with
  | true, true => some (if 2 * (i.value * a % b) < b then c else c + 1)
  | true, false => some c
  | false, true => some (c + 1)
  | false, false => none

def Interval.search (i : Interval) : Nat → Int → Nat × Int
  | 0, p => (i.value * Nat.pow 10 (-p).toNat / (i.denominator * Nat.pow 10 p.toNat), p)
  | fuel + 1, p =>
    match i.onGrid? p with
    | some c => (c, p)
    | none => i.search fuel (p - 1)

def Interval.start (i : Interval) : Int :=
  if i.denominator ≤ i.value then (Integer.digits (i.value / i.denominator)).length
  else 1 - (Integer.digits (i.denominator / i.value)).length

/-- Digits `c` and an exponent `p` such that `c * 10 ^ p` is the decimal to be written. -/
def shortest (x : Binary64) : Nat × Int :=
  let i := x.interval
  i.search 20 i.start

def positional (c : Nat) (p : Int) : List Char :=
  let ds := Integer.digits c
  if 0 ≤ p then ds ++ .replicate p.toNat '0'
  else
    let places := (-p).toNat
    if places < ds.length then
      ds.take (ds.length - places) ++ '.' :: ds.drop (ds.length - places)
    else '0' :: '.' :: .replicate (places - ds.length) '0' ++ ds

def printMagnitude (x : Binary64) : List Char :=
  if x.isInfinite then ['i', 'n', 'f']
  else if x.isZero then ['0']
  else positional x.shortest.1 x.shortest.2

def print (x : Binary64) : List Char :=
  if x.isNaN then ['N', 'a', 'N']
  else if x.negative then '-' :: x.printMagnitude
  else x.printMagnitude

end DocTree.Binary64

namespace DocTree

/-- The 64 bits of a number: sign, 11 bits of exponent, 52 bits of fraction.  Equality is equality
of bits. -/
structure Binary64 where
  bits : UInt64
  deriving DecidableEq, Repr

namespace Binary64

def negative (x : Binary64) : Bool := Nat.pow 2 63 ≤ x.bits.toNat

def magnitude (x : Binary64) : Nat := x.bits.toNat % Nat.pow 2 63

def infinity : Nat := 2047 * Nat.pow 2 52

def isNaN (x : Binary64) : Bool := infinity < x.magnitude

def isInfinite (x : Binary64) : Bool := x.magnitude == infinity

def isZero (x : Binary64) : Bool := x.magnitude == 0

def ofMagnitude (negative : Bool) (magnitude : Nat) : Binary64 :=
  ⟨.ofNat (magnitude + if negative then Nat.pow 2 63 else 0)⟩

/-- Numeric equality: the two zeros agree, and what is not a number agrees with nothing. -/
def agrees (x y : Binary64) : Bool :=
  !x.isNaN && !y.isNaN && (x.bits == y.bits || (x.isZero && y.isZero))

def significand (x : Binary64) : Nat :=
  if x.magnitude < Nat.pow 2 52 then x.magnitude else x.magnitude % Nat.pow 2 52 + Nat.pow 2 52

def exponent (x : Binary64) : Int :=
  (max (x.magnitude / Nat.pow 2 52) 1 : Nat) - 1075

def roundDiv (n d : Nat) : Nat :=
  let q := n / d
  let r := n % d
  if 2 * r < d then q
  else if d < 2 * r then q + 1
  else q + q % 2

def scale (n d : Nat) (e : Int) : Nat × Nat := (n * Nat.pow 2 e.toNat, d * Nat.pow 2 (-e).toNat)

def log2Ratio (n d : Nat) : Int :=
  let e : Int := Nat.log2 n - Nat.log2 d
  let (n', d') := scale n d (-e)
  if n' < d' then e - 1 else e

def ofRatio (negative : Bool) (n d : Nat) : Binary64 :=
  if n = 0 then ofMagnitude negative 0
  else
    let e := max (log2Ratio n d - 52) (-1074)
    let (n', d') := scale n d (-e)
    ofMagnitude negative (min infinity ((e + 1074).toNat * Nat.pow 2 52 + roundDiv n' d'))

def ofInt (n : Int) : Binary64 := ofRatio (n < 0) n.natAbs 1

def ratio (x : Binary64) : Nat × Nat := scale x.significand 1 x.exponent

def mul (x y : Binary64) : Binary64 :=
  ofRatio (x.negative != y.negative) (x.ratio.1 * y.ratio.1) (x.ratio.2 * y.ratio.2)

def div (x y : Binary64) : Binary64 :=
  ofRatio (x.negative != y.negative) (x.ratio.1 * y.ratio.2) (x.ratio.2 * y.ratio.1)

def neg (x : Binary64) : Binary64 := ofMagnitude (!x.negative) x.magnitude

def pow10 (n : Nat) : Binary64 := ofRatio false (Nat.pow 10 n) 1

end Binary64

end DocTree

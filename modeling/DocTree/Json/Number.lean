import DocTree.Json.Basic

/-! The value of a JSON number.  Digits are gathered into 64 bits as long as they fit; the number is
then the nearest double to what was gathered, multiplied or divided by a power of ten. -/

namespace DocTree

inductive JsonNumber
  | integer (n : Int)
  | real (x : Binary64)
  deriving DecidableEq, Repr

namespace JsonNumeral

/-- Appends digits to `n` while the result fits into 64 bits; the digits from the first that does
not are left. -/
def gather (n : Nat) : List Char → Nat × List Char
  | [] => (n, [])
  | c :: s =>
    let m := 10 * n + ((Integer.digit? c).getD 0)
    if m < Nat.pow 2 64 then gather m s else (n, c :: s)

def scaleDown (x : Binary64) (e : Nat) : Binary64 :=
  if e ≤ 308 then x.div (.pow10 e)
  else if x.isZero then x
  else scaleDown (x.div (.pow10 308)) (e - 308)
termination_by e

def scaled? (n : Nat) (e : Int) : Option Binary64 :=
  let x := Binary64.ofInt n
  if e < 0 then some (scaleDown x e.natAbs)
  else if 308 < e then if x.isZero then some x else none
  else
    let y := x.mul (.pow10 e.toNat)
    if y.isInfinite then none else some y

def clampExponent (e : Int) : Int := max (-0x80000000) (min e 0x7fffffff)

/-- The magnitude of gathered digits with an exponent of their own and a written one.  A written
exponent too large to be held makes zero, or is beyond the range. -/
def magnitude? (n : Nat) (e : Int) : Option (Bool × List Char) → Option Binary64
  | none => scaled? n e
  | some (down, ds) =>
    let written := (Integer.digits? 0 ds).getD 0
    if Nat.pow 2 31 ≤ written then if n = 0 ∨ down then some ⟨0⟩ else none
    else scaled? n (clampExponent (if down then e - written else e + written))

def value? (l : JsonNumeral) : Option JsonNumber :=
  let (n, left) := gather 0 l.whole
  if left = [] ∧ l.fraction = [] ∧ l.exponent = none then
    if l.negative ∧ n = 0 then some (.real (.ofMagnitude true 0))
    else some (.integer (if l.negative then -n else n))
  else
    let (m, rest) := gather n l.fraction
    let e : Int := left.length - (l.fraction.length - rest.length : Nat)
    (magnitude? m e l.exponent).map fun x =>
      .real (if l.negative then x.neg else x)

end JsonNumeral

end DocTree

import DocTree.Number.Integer
import DocTree.Text.Blank

namespace DocTree

/-- The pattern of an `nth` pseudo-class; `reverse` counts from the last sibling. -/
structure NthPattern where
  factor : Int
  offset : Int
  reverse : Bool
  deriving DecidableEq, Repr

namespace NthPattern

def first : NthPattern := ⟨0, 1, false⟩

def last : NthPattern := ⟨0, 1, true⟩

/-- A positive factor selects by remainder (of the sign of the position), a negative one the
positions up to the offset, and zero the offset alone. -/
def matchesIndex (p : NthPattern) (i : Int) : Bool :=
  if p.factor = 0 then i == p.offset
  else if 0 < p.factor then i.tmod p.factor == p.offset
  else i ≤ p.offset

def matchesAll (p : NthPattern) : Bool := p.factor == 1 && p.offset == 0

def indexOf? [BEq α] (p : NthPattern) (siblings : List α) (x : α) : Option Int :=
  (siblings.idxOf? x).map fun i =>
    if p.reverse then (siblings.length - i : Nat) else (i + 1 : Nat)

def selects [BEq α] (p : NthPattern) (siblings : List α) (x : α) : Bool :=
  (p.indexOf? siblings x).any p.matchesIndex

/-- After a `+` the integer may not be negative. -/
def offset? : List Char → Option Int
  | '+' :: s => (Integer.read? s).filter (0 ≤ ·)
  | s => Integer.read? s

def factor? : List Char → Option Int
  | [] => some 1
  | ['+'] => some 1
  | ['-'] => some (-1)
  | s => Integer.read? s

def compact? (s : List Char) : Option (Int × Int) :=
  if s = ['o', 'd', 'd'] then some (2, 1)
  else if s = ['e', 'v', 'e', 'n'] then some (2, 0)
  else if s = [] then none
  else match s.dropWhile (· != 'n') with
    | [] => (offset? s).map (0, ·)
    | _ :: rest => do
      let factor ← factor? (s.takeWhile (· != 'n'))
      let offset ← if rest = [] then some 0 else offset? rest
      return (factor, offset)

def parse? (argument : List Char) : Option (Int × Int) :=
  compact? (argument.filter (!Text.isBlank ·))

end NthPattern

end DocTree

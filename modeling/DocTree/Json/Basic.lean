import DocTree.Number.Binary64
import DocTree.Number.Integer

namespace DocTree

/-- A character of a string, or the unit of a `\u` escape, which may be half a character. -/
inductive JsonPiece
  | char (c : Char)
  | unit (n : Nat)
  deriving DecidableEq, Repr

structure JsonNumeral where
  negative : Bool
  whole : List Char
  fraction : List Char
  exponent : Option (Bool × List Char)
  deriving DecidableEq, Repr

inductive Json
  | null
  | bool (b : Bool)
  | number (literal : JsonNumeral)
  | string (pieces : List JsonPiece)
  | array (items : List Json)
  | object (fields : List (List JsonPiece × Json))

namespace Json

def text? : List JsonPiece → Option (List Char)
  | [] => some []
  | .char c :: s => (text? s).map (c :: ·)
  | .unit n :: s =>
    if 0xd800 ≤ n ∧ n < 0xdc00 then
      match s with
      | .unit m :: s =>
        if 0xdc00 ≤ m ∧ m < 0xe000 then
          (text? s).map (Char.ofNat (0x10000 + (n - 0xd800) * 0x400 + (m - 0xdc00)) :: ·)
        else none
      | _ => none
    else if 0xdc00 ≤ n ∧ n < 0xe000 then none
    else (text? s).map (Char.ofNat n :: ·)

def string? (pieces : List JsonPiece) : Option String := (text? pieces).map .ofList

def controlEscape (c : Char) : List Char :=
  ['\\', 'u', '0', '0', Nat.digitChar (c.toNat / 16), Nat.digitChar (c.toNat % 16)]

def escapeChar (c : Char) : List Char :=
  if c = '"' || c = '\\' then ['\\', c]
  else if c = '\x08' then ['\\', 'b']
  else if c = '\x0c' then ['\\', 'f']
  else if c = '\n' then ['\\', 'n']
  else if c = '\r' then ['\\', 'r']
  else if c = '\t' then ['\\', 't']
  else if c.toNat < 0x20 then controlEscape c
  else [c]

def quote (s : String) : List Char := '"' :: s.toList.flatMap escapeChar ++ ['"']

def printBool (b : Bool) : List Char := if b then "true".toList else "false".toList

end Json

end DocTree

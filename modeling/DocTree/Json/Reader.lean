import DocTree.Json.Basic

namespace DocTree.Json

def isSpace (c : Char) : Bool := c == ' ' || c == '\t' || c == '\n' || c == '\r'

def skip (s : List Char) : List Char := s.dropWhile isSpace

def hex? (c : Char) : Option Nat :=
  if '0' ≤ c ∧ c ≤ '9' then some (c.toNat - '0'.toNat)
  else if 'a' ≤ c ∧ c ≤ 'f' then some (c.toNat - 'a'.toNat + 10)
  else if 'A' ≤ c ∧ c ≤ 'F' then some (c.toNat - 'A'.toNat + 10)
  else none

def unescape? : Char → Option Char
  | '"' => some '"'
  | '\\' => some '\\'
  | '/' => some '/'
  | 'b' => some '\x08'
  | 'f' => some '\x0c'
  | 'n' => some '\n'
  | 'r' => some '\r'
  | 't' => some '\t'
  | _ => none

def pieces? : List Char → Option (List JsonPiece × List Char)
  | [] => none
  | c :: s =>
    if c = '"' then some ([], s)
    else if c = '\\' then
      match s with
      | 'u' :: h₁ :: h₂ :: h₃ :: h₄ :: s => do
        let n := ((← hex? h₁) * 16 + (← hex? h₂)) * 256 + ((← hex? h₃) * 16 + (← hex? h₄))
        let (ps, rest) ← pieces? s
        return (.unit n :: ps, rest)
      | e :: s => do
        let c ← unescape? e
        let (ps, rest) ← pieces? s
        return (.char c :: ps, rest)
      | [] => none
    else if c.toNat < 0x20 then none
    else do
      let (ps, rest) ← pieces? s
      return (.char c :: ps, rest)

def isDigit (c : Char) : Bool := '0' ≤ c && c ≤ '9'

def digits? (s : List Char) : Option (List Char × List Char) :=
  if s.takeWhile isDigit = [] then none
  else some (s.takeWhile isDigit, s.dropWhile isDigit)

def fraction? : List Char → Option (List Char × List Char)
  | '.' :: s => digits? s
  | s => some ([], s)

def exponent? : List Char → Option (Option (Bool × List Char) × List Char)
  | c :: s =>
    if c = 'e' ∨ c = 'E' then
      match s with
      | '+' :: s => (digits? s).map fun (ds, rest) => (some (false, ds), rest)
      | '-' :: s => (digits? s).map fun (ds, rest) => (some (true, ds), rest)
      | s => (digits? s).map fun (ds, rest) => (some (false, ds), rest)
    else some (none, c :: s)
  | [] => some (none, [])

def numeral? (negative : Bool) (s : List Char) : Option (JsonNumeral × List Char) := do
  let (whole, s) ← digits? s
  if whole.head? = some '0' ∧ whole ≠ ['0'] then none
  else
    let (fraction, s) ← fraction? s
    let (exponent, s) ← exponent? s
    return (⟨negative, whole, fraction, exponent⟩, s)

def word? (word s : List Char) : Option (List Char) :=
  if word.isPrefixOf s then some (s.drop word.length) else none

mutual

def value? : Nat → List Char → Option (Json × List Char)
  | 0, _ => none
  | _ + 1, [] => none
  | fuel + 1, c :: s =>
    if c = '"' then (pieces? s).map fun (ps, rest) => (.string ps, rest)
    else if c = '\x7b' then
      match skip s with
      | '\x7d' :: rest => some (.object [], rest)
      | s => (fields? fuel s).map fun (fs, rest) => (.object fs, rest)
    else if c = '[' then
      match skip s with
      | ']' :: rest => some (.array [], rest)
      | s => (items? fuel s).map fun (xs, rest) => (.array xs, rest)
    else if c = 'n' then (word? "ull".toList s).map (.null, ·)
    else if c = 't' then (word? "rue".toList s).map (.bool true, ·)
    else if c = 'f' then (word? "alse".toList s).map (.bool false, ·)
    else if c = '-' then (numeral? true s).map fun (n, rest) => (.number n, rest)
    else (numeral? false (c :: s)).map fun (n, rest) => (.number n, rest)

def items? : Nat → List Char → Option (List Json × List Char)
  | 0, _ => none
  | fuel + 1, s => do
    let (x, s) ← value? fuel s
    match skip s with
    | ',' :: s =>
      let (xs, rest) ← items? fuel (skip s)
      return (x :: xs, rest)
    | ']' :: rest => return ([x], rest)
    | _ => none

def fields? : Nat → List Char → Option (List (List JsonPiece × Json) × List Char)
  | 0, _ => none
  | fuel + 1, s =>
    match s with
    | '"' :: s => do
      let (key, s) ← pieces? s
      match skip s with
      | ':' :: s =>
        let (x, s) ← value? fuel (skip s)
        match skip s with
        | ',' :: s =>
          let (fs, rest) ← fields? fuel (skip s)
          return ((key, x) :: fs, rest)
        | '\x7d' :: rest => return ([(key, x)], rest)
        | _ => none
      | _ => none
    | _ => none

end

def parse? (text : String) : Option Json := do
  let s := text.toList
  let (v, rest) ← value? (2 * s.length + 2) (skip s)
  if skip rest = [] then some v else none

end DocTree.Json

import DocTree.Selector.Listing
import DocTree.Selector.Parser

namespace DocTree

abbrev RowBuilder := StateM (Array SelectorRow)

namespace RowBuilder

def push (row : SelectorRow) : RowBuilder Nat := do
  let number := (← get).size
  modify (·.push row)
  return number

def buildParts : List (List Char) → RowBuilder (List Nat)
  | [] => return []
  | part :: rest =>
    match Predicate.ofPart part with
    | none => buildParts rest
    | some p => do
      let number ← push (.simple p)
      return number :: (← buildParts rest)

def buildCompound (s : List Char) : RowBuilder Nat := do
  match ← buildParts (splitCompound s) with
  | [] => push (.simple (.tag "*"))
  | [number] => return number
  | numbers => push (.all numbers)

def side : Option Nat → RowBuilder Nat
  | some number => return number
  | none => push (.simple .never)

def buildGroup? (s : List Char) : RowBuilder (Option Nat) :=
  if Text.trim s = [] then return none
  else match h : lastCombinator (Text.trim s) with
    | none => do return some (← buildCompound (Text.trim s))
    | some (l, k, r) =>
      have := length_of_lastCombinator h
      have := Text.length_trim_le s
      do
        let left ← side (← buildGroup? l)
        let right ← side (← buildGroup? r)
        return some (← push (.combined k left right))
termination_by s.length

def buildGroups : List (List Char) → RowBuilder (List Nat)
  | [] => return []
  | group :: rest => do
    match ← buildGroup? group with
    | none => buildGroups rest
    | some number => return number :: (← buildGroups rest)

def buildList (text : String) : RowBuilder Nat := do
  push (.any (← buildGroups ((splitTop ',' text.toList).map Text.lower)))

def parse (text : String) : Nat × Array SelectorRow := (buildList text).run #[]

end RowBuilder

end DocTree

import DocTree.Json.Number
import DocTree.Json.Reader
import DocTree.Number.Shortest

namespace DocTree

/-- An attribute value.  Equality is identity; `Value.agrees` compares doubles as numbers. -/
inductive Value
  | bool (b : Bool)
  | int (n : Int64)
  | double (x : Binary64)
  | string (s : String)
  deriving DecidableEq, Repr

inductive ValueKind
  | bool
  | int
  | double
  | string
  deriving DecidableEq, Repr

def ValueKind.name : ValueKind → String
  | bool => "Bool"
  | int => "Int"
  | double => "Double"
  | string => "String"

namespace Value

def kind : Value → ValueKind
  | bool _ => .bool
  | int _ => .int
  | double _ => .double
  | string _ => .string

def isString (v : Value) : Bool := v.kind = .string

def isBool (v : Value) : Bool := v.kind = .bool

def isInt (v : Value) : Bool := v.kind = .int

def isDouble (v : Value) : Bool := v.kind = .double

def isNumber (v : Value) : Bool := v.isInt || v.isDouble

def string? : Value → Option String
  | string s => some s
  | _ => none

def bool? : Value → Option Bool
  | bool b => some b
  | _ => none

def int? : Value → Option Int64
  | int n => some n
  | _ => none

def double? : Value → Option Binary64
  | int n => some (.ofInt n.toInt)
  | double x => some x
  | _ => none

def print : Value → List Char
  | bool b => if b then ['1'] else ['0']
  | int n => Integer.print n.toInt
  | double x => x.print
  | string s => s.toList

def text (v : Value) : String := .ofList v.print

def agrees : Value → Value → Bool
  | bool a, bool b => a == b
  | int a, int b => a == b
  | double a, double b => a.agrees b
  | string a, string b => a == b
  | _, _ => false

def printJson : Value → Option (List Char)
  | bool b => some (Json.printBool b)
  | int n => some (Integer.print n.toInt)
  | double _ => none
  | string s => some (Json.quote s)

def ofNumber : JsonNumber → Value
  | .integer n => if Integer.InRange n then int (.ofInt n) else double (.ofInt n)
  | .real x => double x

def ofJson? : Json → Option Value
  | .bool b => some (bool b)
  | .number l => l.value?.map ofNumber
  | .string ps => (Json.string? ps).map string
  | _ => none

def parseJson? (document : String) : Option Value := (Json.parse? document).bind ofJson?

end Value

end DocTree

import DocTree.Error
import DocTree.Json.Reader
import DocTree.Text.Blank

namespace DocTree.Markup

structure Format where
  indent : String
  declaration : Bool
  escapes : Bool
  deriving DecidableEq, Repr

namespace Format

def default : Format := ⟨"  ", true, true⟩

instance : Inhabited Format := ⟨default⟩

def validate (f : Format) : Except Error Unit :=
  if f.indent.toList.all Text.isBlank then .ok () else .error (.indentNotBlank f.indent)

def printJson (f : Format) : List Char :=
  "\x7b\"indent\":".toList ++ Json.quote f.indent
    ++ ",\"xml_declaration\":".toList ++ Json.printBool f.declaration
    ++ ",\"escape_attributes\":".toList ++ Json.printBool f.escapes ++ ['\x7d']

inductive Field
  | indent
  | declaration
  | escapes
  deriving DecidableEq, Repr

def Field.ofName? : String → Option Field
  | "indent" => some indent
  | "xml_declaration" => some declaration
  | "escape_attributes" => some escapes
  | _ => none

def set? (f : Format) : Field → Json → Option Format
  | .indent, .string ps => (Json.string? ps).map fun s => { f with indent := s }
  | .declaration, .bool b => some { f with declaration := b }
  | .escapes, .bool b => some { f with escapes := b }
  | _, _ => none

def setFields? (f : Format) (given : List Field) :
    List (List JsonPiece × Json) → Option Format
  | [] => some f
  | (key, v) :: rest => do
    match Field.ofName? (← Json.string? key) with
    | none => setFields? f given rest
    | some x =>
      if x ∈ given then none
      else (← f.set? x v).setFields? (x :: given) rest

def setItems? (f : Format) : List Field → List Json → Option Format
  | _, [] => some f
  | [], _ :: _ => none
  | x :: xs, v :: vs => do (← f.set? x v).setItems? xs vs

/-- An object of fields, or the fields in order; what is missing keeps its default. -/
def ofJson? : Json → Option Format
  | .object fields => default.setFields? [] fields
  | .array items => default.setItems? [.indent, .declaration, .escapes] items
  | _ => none

def parseJson (document : String) : Except Error Format :=
  match (Json.parse? document).bind ofJson? with
  | none => .error .malformedFormat
  | some f => f.validate.map fun _ => f

end Format

end DocTree.Markup

namespace DocTree.Text

def entity? : Char → Option String
  | '&' => some "&amp;"
  | '<' => some "&lt;"
  | '>' => some "&gt;"
  | '"' => some "&quot;"
  | '\'' => some "&apos;"
  | _ => none

def escapeChar (c : Char) : List Char := ((entity? c).map String.toList).getD [c]

def escapeChars (s : List Char) : List Char := s.flatMap escapeChar

def signs : List Char := ['&', '<', '>', '"', '\'']

def isPlain (s : String) : Bool := !s.toList.any signs.contains

def escape (s : String) : String := if isPlain s then s else .ofList (escapeChars s.toList)

@[simp] theorem escapeChars_append (s t : List Char) :
    escapeChars (s ++ t) = escapeChars s ++ escapeChars t := by
  simp [escapeChars]

end DocTree.Text

import DocTree.Markup.Format
import DocTree.Proofs.Json.Printed
import DocTree.Proofs.Outcome

namespace DocTree.Markup.Format

variable {f g : Format} {members : List (List JsonPiece × Json)}

def fields (f : Format) : List (String × Json.Scalar) :=
  [("indent", .string f.indent), ("xml_declaration", .bool f.declaration),
    ("escape_attributes", .bool f.escapes)]

theorem printJson_eq (f : Format) :
    f.printJson = '\x7b' :: Json.printFields f.fields ++ ['\x7d'] := by
  have hprint : ∀ {s t u : List Char}, "\x7b\"indent\":".toList = s →
      ",\"xml_declaration\":".toList = t → ",\"escape_attributes\":".toList = u →
      f.printJson = s ++ Json.quote f.indent ++ t ++ Json.printBool f.declaration ++ u ++
        Json.printBool f.escapes ++ ['\x7d'] := by
    rintro _ _ _ rfl rfl rfl
    rfl
  have hfields := hprint (s := '\x7b' :: (Json.quote "indent" ++ [':']))
    (t := ',' :: (Json.quote "xml_declaration" ++ [':']))
    (u := ',' :: (Json.quote "escape_attributes" ++ [':']))
    (by decide +kernel) (by decide +kernel) (by decide +kernel)
  rw [hfields, fields, Json.printFields_cons_cons, Json.printFields_cons_cons,
    Json.printFields_singleton]
  simp only [Json.printField, Json.Scalar.print, List.append_assoc, List.cons_append,
    List.nil_append]

theorem ofJson?_of_says (h : List.Forall₂ Json.SaysField f.fields members) :
    ofJson? (.object members) = some f := by
  obtain ⟨⟨_, _⟩, _, ⟨hindent, hi⟩, hrest, rfl⟩ := List.forall₂_cons_left_iff.1 h
  obtain ⟨⟨_, _⟩, _, ⟨hdeclaration, hd⟩, hlast, rfl⟩ := List.forall₂_cons_left_iff.1 hrest
  obtain ⟨⟨_, _⟩, _, ⟨hescapes, he⟩, hnil, rfl⟩ := List.forall₂_cons_left_iff.1 hlast
  obtain rfl := List.forall₂_nil_left_iff.1 hnil
  cases hi with
  | string hi =>
    cases hd
    cases he
    simp [ofJson?, setFields?, hindent, hdeclaration, hescapes, Field.ofName?, set?, hi]

theorem validate_of_parseJson {document : String} (h : parseJson document = .ok f) :
    f.validate = .ok () := by
  rw [parseJson] at h
  cases hread : (Json.parse? document).bind ofJson? with
  | none => simp [hread] at h
  | some g =>
    cases hvalid : g.validate with
    | error e => simp [hread, hvalid, Except.map] at h
    | ok _ =>
      obtain rfl : g = f := by simpa [hread, hvalid, Except.map] using h
      exact hvalid

/-- A format is read back from its JSON text if its indent is blank, and refused as invalid
otherwise; what is read from any document is valid. -/
theorem parseJson_printJson (f : Format) :
    parseJson (.ofList f.printJson) =
        (if f.indent.toList.all Text.isBlank then .ok f else .error (.indentNotBlank f.indent)) ∧
      (Error.indentNotBlank f.indent).kind = .invalidFormat ∧
      ∀ document g, parseJson document = .ok g → g.validate = .ok () := by
  refine ⟨?_, rfl, fun document g => validate_of_parseJson⟩
  have hne : f.fields ≠ [] := List.cons_ne_nil _ _
  obtain ⟨members, hsays, hparse⟩ := Json.exists_parse?_object hne
  rw [printJson_eq, parseJson, hparse, Option.bind_some, ofJson?_of_says hsays]
  simp only [validate]
  split_ifs <;> rfl

theorem parseJson_printJson_escaped : ∃ f g : Format,
    f = ⟨"\t\"\\\x01", false, true⟩ ∧ g = ⟨"\u3000\n\x85", true, false⟩ ∧
      parseJson (.ofList f.printJson) = .error (.indentNotBlank f.indent) ∧
      parseJson (.ofList g.printJson) = .ok g ∧ g.validate = .ok () := by
  have hall := parseJson_printJson ⟨"\u3000\n\x85", true, false⟩
  have hg := hall.1
  rw [if_pos (by decide +kernel)] at hg
  have hf := (parseJson_printJson ⟨"\t\"\\\x01", false, true⟩).1
  rw [if_neg (by decide +kernel)] at hf
  exact ⟨_, _, rfl, rfl, hf, hg, hall.2.2 _ _ hg⟩

end DocTree.Markup.Format

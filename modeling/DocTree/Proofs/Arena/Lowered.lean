import DocTree.Proofs.Arena.Moving
import DocTree.Proofs.Selector.Meaning
import DocTree.Proofs.Text.Letter

namespace DocTree

def Value.lowered : Value → Value
  | .string s => .string (Text.lowerString s)
  | v => v

namespace Attributes

def lowerEntry (p : String × Value) : String × Value :=
  (p.1, if p.1 = "id" ∨ p.1 = "class" then p.2.lowered else p.2)

def lowered (a : Attributes) : Attributes :=
  ⟨a.entries.map lowerEntry, List.pairwise_map.2 a.ascending⟩

end Attributes

def Element.lowered (e : Element) : Element := ⟨Text.lowerString e.name, e.attributes.lowered⟩

def NodeData.lowered : NodeData → NodeData
  | .element e => .element e.lowered
  | d => d

def Node.lowered (n : Node) : Node := { n with data := n.data.lowered }

def Arena.lowered (a : Arena) : Arena := a.mapNodes fun _ => Node.lowered

variable {a : Arena} {x y p r : NodeId} {n : Node} {e : Element} {ys : List NodeId}

theorem Value.lower_lowered (v : Value) :
    Text.lower v.lowered.text.toList = Text.lower v.text.toList := by
  cases v with
  | string s => simp [lowered, text, print, Text.lower_lower]
  | _ => rfl

namespace Attributes

theorem find?_lowered (a : Attributes) (p : String → Bool) :
    a.lowered.entries.find? (p ·.1) = (a.entries.find? (p ·.1)).map lowerEntry := List.find?_map ..

theorem lower_text_lowered (a : Attributes) (name : String) :
    Text.lower (a.lowered.text name).toList = Text.lower (a.text name).toList := by
  rw [text, text, get?, get?, a.find?_lowered (· == name)]
  cases a.entries.find? (·.1 == name) with
  | none => rfl
  | some p =>
    simp only [Option.map_some, Option.getD_some, lowerEntry]
    split
    · exact p.2.lower_lowered
    · rfl

theorem isSome_getIgnoringCase?_lowered (a : Attributes) (name : String) :
    (a.lowered.getIgnoringCase? name).isSome = (a.getIgnoringCase? name).isSome := by
  simp [getIgnoringCase?, get?, a.find?_lowered (· == name),
    a.find?_lowered (Text.sameIgnoringCase · name)]

end Attributes

theorem NodeData.kind_lowered (d : NodeData) : d.lowered.kind = d.kind := by
  cases d <;> rfl

namespace Node

@[simp] theorem parent_lowered (n : Node) : n.lowered.parent = n.parent := rfl

@[simp] theorem children_lowered (n : Node) : n.lowered.children = n.children := rfl

@[simp] theorem kind_lowered (n : Node) : n.lowered.kind = n.kind := n.data.kind_lowered

@[simp] theorem isElement_lowered (n : Node) : n.lowered.isElement = n.isElement := by
  simp [isElement]

@[simp] theorem isDocument_lowered (n : Node) : n.lowered.isDocument = n.isDocument := by
  simp [isDocument]

@[simp] theorem ownerDocument_lowered (n : Node) : n.lowered.ownerDocument = n.ownerDocument := by
  rw [ownerDocument, isDocument_lowered]
  rfl

end Node

namespace Arena

theorem keepsLinks_lowered (a : Arena) : a.KeepsLinks fun _ => Node.lowered :=
  ⟨fun _ => rfl, fun _ => rfl, fun _ => rfl, fun _ => Node.kind_lowered _⟩

theorem WellFormed.lowered (h : a.WellFormed) : a.lowered.WellFormed :=
  h.mapNodes a.keepsLinks_lowered fun _ => .inl rfl

@[simp] theorem find?_lowered (a : Arena) (x : NodeId) :
    a.lowered.find? x = (a.find? x).map Node.lowered := find?_mapNodes ..

@[simp] theorem isElementAt_lowered (a : Arena) : a.lowered.isElementAt = a.isElementAt :=
  funext fun x => isElementAt_mapNodes a.keepsLinks_lowered.kind x

@[simp] theorem hasParent_lowered : a.lowered.HasParent x p ↔ a.HasParent x p :=
  hasParent_mapNodes_iff a.keepsLinks_lowered.parent

theorem get_lowered (a : Arena) (x : NodeId) : a.lowered.get x = (a.get x).map Node.lowered := by
  rw [get, get, find?_lowered]
  cases a.find? x <;> rfl

@[simp] theorem contains_lowered (a : Arena) (x y : NodeId) :
    a.lowered.contains x y = a.contains x y := by
  have hparent : a.lowered.parent = a.parent := by
    funext z
    rw [parent, parent, get_lowered]
    cases a.get z <;> rfl
  rw [contains, contains, ancestors, ancestors, hparent, get_lowered]
  cases a.get x with
  | error e => rfl
  | ok n => simp [lowered, Except.map]

@[simp] theorem precedes_lowered : a.lowered.Precedes y x ↔ a.Precedes y x := by
  simp [Precedes]

@[simp] theorem among_lowered : a.lowered.Among x ys ↔ a.Among x ys := by
  simp [Among]

theorem WellFormed.subtree_lowered (h : a.WellFormed) (hr : a.find? r = some n) :
    a.lowered.subtree r = a.subtree r := by
  have hpre : a.lowered.Preorder [r] (a.subtree r) :=
    (h.preorder_spec hr).2.congr fun y _ k hk => ⟨_, find?_mapNodes_of_live hk, rfl⟩
  exact (h.lowered.preorder_spec (find?_mapNodes_of_live hr)).2.unique hpre

theorem elementAt_lowered_iff :
    a.lowered.ElementAt x e ↔ ∃ f, a.ElementAt x f ∧ f.lowered = e := by
  constructor
  · rintro ⟨n, hn, he⟩
    rw [find?_lowered, Option.map_eq_some_iff] at hn
    obtain ⟨m, hm, rfl⟩ := hn
    cases hdata : m.data with
    | element f =>
      rw [Node.lowered, hdata] at he
      exact ⟨f, ⟨m, hm, hdata⟩, NodeData.element.inj he⟩
    | _ => simp [Node.lowered, hdata, NodeData.lowered] at he
  · rintro ⟨f, ⟨n, hn, hf⟩, rfl⟩
    exact ⟨n.lowered, by rw [find?_lowered, hn]; rfl, by rw [Node.lowered, hf]; rfl⟩

theorem exists_elementAt_lowered {P Q : Element → Prop} (hPQ : ∀ f, P f.lowered ↔ Q f) :
    (∃ e, a.lowered.ElementAt x e ∧ P e) ↔ ∃ f, a.ElementAt x f ∧ Q f := by
  simp only [elementAt_lowered_iff]
  constructor
  · rintro ⟨-, ⟨f, hf, rfl⟩, hP⟩
    exact ⟨f, hf, (hPQ f).1 hP⟩
  · rintro ⟨f, hf, hQ⟩
    exact ⟨_, ⟨f, hf, rfl⟩, (hPQ f).2 hQ⟩

@[simp] theorem isNamed_lowerString (a : Arena) (name : String) :
    a.isNamed (Text.lowerString name) = a.isNamed name := by
  funext x
  simp [isNamed, Text.sameIgnoringCase]

@[simp] theorem isNamed_lowered (a : Arena) (name : String) :
    a.lowered.isNamed name = a.isNamed name := by
  funext x
  cases hx : a.find? x with
  | none => simp [isNamed, hx]
  | some n => cases hn : n.data <;>
      simp [isNamed, hx, hn, Node.lowered, NodeData.lowered, Element.lowered, Node.element?,
        Text.sameIgnoringCase]

end Arena

end DocTree

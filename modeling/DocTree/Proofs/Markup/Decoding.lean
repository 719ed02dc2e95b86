import DocTree.Proofs.Edit.Operation
import DocTree.Proofs.Markup.Outline
import DocTree.Proofs.Text.Entity
import DocTree.Proofs.Text.Name

/-! Markup is uniquely decodable.  Tags and comments end where they are first closed, and the lines
below an element before its closing tag, so what is written tells the outline. -/

namespace DocTree.Markup

open Text (IsName isNameChar isBlank escapeChars)

variable {f : Format} {r s t u w : List Char} {depth : Nat}

theorem eq_nil_of_commentEnd (hw : ¬ "-->".toList <:+: s ++ w)
    (h : "-->".toList ++ r = w ++ ("-->".toList ++ u)) : w = [] := by
  match w, hw, h with
  | [], _, _ => rfl
  | [c], _, h => simp at h
  | [c, d], _, h => simp at h
  | c :: d :: e :: v, hw, h =>
    refine absurd ?_ hw
    obtain ⟨rfl, rfl, rfl, -⟩ : '-' = c ∧ '-' = d ∧ '>' = e ∧ _ := by simpa using h
    exact ⟨s, v, by simp⟩

theorem commentEnd_inj (hs : ¬ "-->".toList <:+: s) (ht : ¬ "-->".toList <:+: t)
    (h : s ++ ("-->".toList ++ r) = t ++ ("-->".toList ++ u)) : s = t ∧ r = u := by
  rcases List.append_eq_append_iff.1 h with ⟨w, rfl, hw⟩ | ⟨w, rfl, hw⟩
  · obtain rfl := eq_nil_of_commentEnd ht hw
    exact ⟨(List.append_nil s).symm, List.append_cancel_left hw⟩
  · obtain rfl := eq_nil_of_commentEnd hs hw
    exact ⟨List.append_nil t, (List.append_cancel_left hw).symm⟩

theorem toList_attributeText (hf : f.escapes = true) (p : String × String) :
    (f.attributeText p).toList =
      ' ' :: (p.1.toList ++ '=' :: '"' :: (escapeChars p.2.toList ++ ['"'])) := by
  simp [Format.attributeText, hf]

theorem attributes_inj (hf : f.escapes = true) {as bs : List (String × String)}
    (has : ∀ p ∈ as, IsName p.1.toList) (hbs : ∀ p ∈ bs, IsName p.1.toList)
    (h : as.flatMap (fun p => (f.attributeText p).toList) ++ '>' :: r =
      bs.flatMap (fun p => (f.attributeText p).toList) ++ '>' :: u) : as = bs ∧ r = u := by
  simp only [toList_attributeText hf] at h
  induction as generalizing bs with
  | nil =>
    cases bs with
    | nil => exact ⟨rfl, (List.cons.inj h).2⟩
    | cons q bs => simp at h
  | cons p as ih =>
    cases bs with
    | nil => simp at h
    | cons q bs =>
      obtain ⟨hp, has⟩ := List.forall_mem_cons.1 has
      obtain ⟨hq, hbs⟩ := List.forall_mem_cons.1 hbs
      simp only [List.flatMap_cons, List.cons_append, List.append_assoc, List.cons.injEq,
        true_and, List.nil_append] at h
      have hend : ∀ {v : List Char}, ∀ c, ('=' :: v).head? = some c → ¬ isNameChar c = true := by
        rintro v c ⟨⟩
        decide
      obtain ⟨hname, hvalue⟩ := Text.append_inj_of_run hp.2 hq.2 hend hend h
      have hquoted := (List.cons.inj (List.cons.inj hvalue).2).2
      obtain ⟨htext, hrest⟩ := Text.escapeChars_append_inj hquoted
      obtain ⟨rfl, hru⟩ := ih has hbs hrest
      have hpq : p = q := Prod.ext (String.toList_inj.1 hname) (String.toList_inj.1 htext)
      exact ⟨by rw [hpq], hru⟩

theorem startTag_inj (hf : f.escapes = true) {as bs : List (String × String)} {name other : String}
    (hname : IsName name.toList) (hother : IsName other.toList)
    (has : ∀ p ∈ as, IsName p.1.toList) (hbs : ∀ p ∈ bs, IsName p.1.toList)
    (h : (f.startTag name as).toList ++ r = (f.startTag other bs).toList ++ u) :
    name = other ∧ as = bs ∧ r = u := by
  simp only [Format.startTag, String.toList_append, String.toList_join, List.flatMap_map,
    List.append_assoc] at h
  have hend : ∀ {cs : List (String × String)} {v : List Char}, ∀ c,
      (cs.flatMap (fun p => (f.attributeText p).toList) ++ '>' :: v).head? = some c →
        ¬ isNameChar c = true := by
    rintro (_ | ⟨p, cs⟩) v c hc
    · cases hc
      decide
    · rw [List.flatMap_cons, toList_attributeText hf] at hc
      cases hc
      decide
  obtain ⟨hnames, hrest⟩ := Text.append_inj_of_run hname.2 hother.2 hend hend
    (List.append_cancel_left h)
  obtain ⟨hattributes, hru⟩ := attributes_inj hf has hbs hrest
  exact ⟨String.toList_inj.1 hnames, hattributes, hru⟩

theorem startTag_ne_commentTag {name : String} (hname : IsName name.toList)
    (as : List (String × String)) (text : String) :
    (f.startTag name as).toList ++ r ≠ (commentTag text).toList ++ u := by
  obtain ⟨c, t, ht⟩ := List.exists_cons_of_ne_nil hname.1
  intro h
  have hc : c = '!' := by
    simp only [Format.startTag, commentTag, String.toList_append, ht] at h
    exact (List.cons.inj (List.cons.inj h).2).1
  exact absurd (hname.2 c (by simp [ht])) (hc ▸ by decide)

theorem commentTag_inj {text other : String} (htext : ¬ "-->".toList <:+: text.toList)
    (hother : ¬ "-->".toList <:+: other.toList)
    (h : (commentTag text).toList ++ r = (commentTag other).toList ++ u) :
    text = other ∧ r = u := by
  simp only [commentTag, String.toList_append, List.append_assoc] at h
  obtain ⟨htexts, hru⟩ := commentEnd_inj htext hother (List.append_cancel_left h)
  exact ⟨String.toList_inj.1 htexts, hru⟩

def Format.pad (f : Format) (depth : Nat) : List Char :=
  (String.join (.replicate depth f.indent)).toList

theorem pad_succ (f : Format) (depth : Nat) :
    f.pad (depth + 1) = f.pad depth ++ f.indent.toList := by
  simp [Format.pad, String.toList_join, List.replicate_succ']

def Outline.chars (f : Format) (o : Outline) (depth : Nat) : List Char :=
  (String.join (o.lines f depth)).toList

@[simp] theorem chars_nil (f : Format) (depth : Nat) : Outline.nil.chars f depth = [] := rfl

theorem chars_element (f : Format) (name : String) (as : List (String × String))
    (cs os : Outline) (depth : Nat) :
    (Outline.node (.element name as) cs os).chars f depth ++ r =
      f.pad depth ++ ((f.startTag name as).toList ++ '\n' :: (cs.chars f (depth + 1) ++
        (f.pad depth ++ ((endTag name).toList ++ '\n' :: (os.chars f depth ++ r))))) := by
  simp [Outline.chars, Outline.lines, String.toList_join, Format.line, Format.pad]

theorem chars_comment (f : Format) (text : String) (cs os : Outline) (depth : Nat) :
    (Outline.node (.comment text) cs os).chars f depth ++ r =
      f.pad depth ++ ((commentTag text).toList ++ '\n' :: (os.chars f depth ++ r)) := by
  simp [Outline.chars, Outline.lines, String.toList_join, Format.line, Format.pad]

def Label.IsPlain : Label → Prop
  | document => True
  | element name attributes => IsName name.toList ∧ ∀ p ∈ attributes, IsName p.1.toList
  | comment text => ¬ "-->".toList <:+: text.toList

instance : (label : Label) → Decidable label.IsPlain
  | .document => inferInstanceAs (Decidable True)
  | .element name attributes =>
    inferInstanceAs (Decidable (IsName name.toList ∧ ∀ p ∈ attributes, IsName p.1.toList))
  | .comment text => inferInstanceAs (Decidable (¬ "-->".toList <:+: text.toList))

inductive Outline.IsPlain : Outline → Prop
  | nil : IsPlain .nil
  | element : (Label.element name as).IsPlain → IsPlain cs → IsPlain os →
      IsPlain (.node (.element name as) cs os)
  | comment : (Label.comment text).IsPlain → IsPlain os → IsPlain (.node (.comment text) .nil os)

def Format.Opens (f : Format) (depth : Nat) (s : List Char) : Prop :=
  ∃ c t, s = f.pad depth ++ '<' :: c :: t ∧ c ≠ '/'

theorem opens_element (f : Format) {name : String} (hname : IsName name.toList)
    (as : List (String × String)) (cs os : Outline) (depth : Nat) (r : List Char) :
    f.Opens depth ((Outline.node (.element name as) cs os).chars f depth ++ r) := by
  obtain ⟨c, t, ht⟩ := List.exists_cons_of_ne_nil hname.1
  have hc : c ≠ '/' := by
    rintro rfl
    exact absurd (hname.2 '/' (by simp [ht])) (by decide)
  rw [chars_element]
  exact ⟨c, _, by simp [Format.startTag, ht]; rfl, hc⟩

theorem opens_comment (f : Format) (text : String) (cs os : Outline) (depth : Nat)
    (r : List Char) : f.Opens depth ((Outline.node (.comment text) cs os).chars f depth ++ r) := by
  rw [chars_comment]
  exact ⟨'!', _, by simp [commentTag]; rfl, by decide⟩

theorem not_opens_nil (f : Format) (depth : Nat) : ¬ f.Opens depth [] := by
  rintro ⟨c, t, h, -⟩
  simp at h

theorem not_opens_endTag (hf : f.validate = .ok ()) (depth : Nat) (name : String)
    (r : List Char) : ¬ f.Opens (depth + 1) (f.pad depth ++ ((endTag name).toList ++ r)) := by
  rintro ⟨c, t, h, hc⟩
  rw [pad_succ, List.append_assoc] at h
  have h := List.append_cancel_left h
  cases hindent : f.indent.toList with
  | nil =>
    rw [hindent] at h
    simp [endTag] at h
    exact hc h.1.symm
  | cons d ds =>
    have hd : isBlank d = true := by
      simp [Format.validate] at hf
      exact hf d (by simp [hindent])
    rw [hindent] at h
    simp [endTag] at h
    exact absurd (h.1 ▸ hd) (by decide)

/-- The lines of an outline tell it, and where they end. -/
theorem chars_inj (hvalid : f.validate = .ok ()) (hescapes : f.escapes = true) {o p : Outline}
    (ho : o.IsPlain) (hp : p.IsPlain) (hr : ¬ f.Opens depth r) (hs : ¬ f.Opens depth s)
    (h : o.chars f depth ++ r = p.chars f depth ++ s) : o = p ∧ r = s := by
  induction ho generalizing p depth r s with
  | nil =>
    rw [chars_nil, List.nil_append] at h
    subst h
    cases hp with
    | nil => exact ⟨rfl, rfl⟩
    | element hlabel => exact absurd (opens_element f hlabel.1 _ _ _ depth s) hr
    | comment => exact absurd (opens_comment f _ _ _ depth s) hr
  | element hlabel _ _ ihc ihs =>
    obtain ⟨hname, has⟩ := hlabel
    cases hp with
    | nil =>
      rw [chars_nil, List.nil_append] at h
      exact absurd (h ▸ opens_element f hname _ _ _ depth r) hs
    | element hother hcs hos =>
      obtain ⟨hother, hbs⟩ := hother
      rw [chars_element, chars_element] at h
      obtain ⟨rfl, rfl, hbelow⟩ := startTag_inj hescapes hname hother has hbs
        (List.append_cancel_left h)
      obtain ⟨rfl, hclosed⟩ := ihc hcs (not_opens_endTag hvalid depth _ _)
        (not_opens_endTag hvalid depth _ _) (List.cons.inj hbelow).2
      have hafter := List.append_cancel_left (List.append_cancel_left hclosed)
      obtain ⟨rfl, hrs⟩ := ihs hos hr hs (List.cons.inj hafter).2
      exact ⟨rfl, hrs⟩
    | comment =>
      rw [chars_element, chars_comment] at h
      exact absurd (List.append_cancel_left h) (startTag_ne_commentTag hname _ _)
  | comment htext _ ihs =>
    cases hp with
    | nil =>
      rw [chars_nil, List.nil_append] at h
      exact absurd (h ▸ opens_comment f _ _ _ depth r) hs
    | element hother =>
      rw [chars_comment, chars_element] at h
      exact absurd (List.append_cancel_left h).symm (startTag_ne_commentTag hother.1 _ _)
    | comment hother hos =>
      rw [chars_comment, chars_comment] at h
      obtain ⟨rfl, hafter⟩ := commentTag_inj htext hother (List.append_cancel_left h)
      obtain ⟨rfl, hrs⟩ := ihs hos hr hs (List.cons.inj hafter).2
      exact ⟨rfl, hrs⟩

end DocTree.Markup

namespace DocTree.Arena

open Markup

variable {a b : Arena} {x y : NodeId} {m n : Node} {xs : List NodeId} {o : Outline} {f : Format}

def IsPlain (a : Arena) (x : NodeId) : Prop :=
  ∀ y n, a.Within x y → a.find? y = some n → n.data.label.IsPlain

theorem isPlain_of_forall_nodes (h : ∀ n ∈ a.nodes, n.data.label.IsPlain) (x : NodeId) :
    a.IsPlain x :=
  fun y n _ hy => h n (mem_nodes_iff.2 ⟨y, hy⟩)

theorem WellFormed.isPlain_outline (h : a.WellFormed) (ho : a.Outlines xs o)
    (hdoc : ∀ x ∈ xs, ∀ n, a.find? x = some n → n.isDocument = false)
    (hxs : ∀ x ∈ xs, a.IsPlain x) : o.IsPlain := by
  induction ho with
  | nil => exact .nil
  | @cons x n cs xs os hx hc _ ihc ihs =>
    have hlabel := hxs x (by simp) x n (.refl a x) hx
    have hrest := ihs (fun y hy => hdoc y (List.mem_cons_of_mem _ hy))
      fun y hy => hxs y (List.mem_cons_of_mem _ hy)
    have hchildren : cs.IsPlain := by
      refine ihc (fun y hy k hk => ?_) fun y hy z k hyz hk => ?_
      · exact h.not_document_of_above (h.above_of_hasParent (h.hasParent_of_mem hx hy)) hk
      · have hxy := h.above_of_hasParent (h.hasParent_of_mem hx hy)
        exact hxs x (by simp) z k (.trans (.inr hxy) hyz) hk
    cases hdata : n.data with
    | document =>
      have hn := hdoc x (by simp) n hx
      simp [Node.isDocument, Node.kind, hdata, NodeData.kind] at hn
    | element e =>
      rw [hdata] at hlabel
      exact .element hlabel hchildren hrest
    | comment s =>
      rw [hdata] at hlabel
      have hleaf : n.children = [] :=
        h.comment_children hx (by simp [Node.isComment, Node.kind, hdata, NodeData.kind])
      rw [hleaf] at hc
      cases hc
      exact .comment hlabel hrest

theorem WellFormed.exists_plain_outline (h : a.WellFormed) (hx : a.find? x = some n)
    (hn : n.isDocument = false) (hplain : a.IsPlain x) : ∃ o, a.Outlines [x] o ∧ o.IsPlain := by
  obtain ⟨o, ho, -⟩ := (h.preorder_spec hx).2.exists_outlines
  refine ⟨o, ho, h.isPlain_outline ho ?_ (by simpa using hplain)⟩
  simpa [hx] using hn

/-- Two subtrees are written alike just if they have the same outline, where names are names and no
comment holds its own end. -/
theorem Reachable.serialize_eq_iff (ha : a.Reachable) (hb : b.Reachable)
    (hvalid : f.validate = .ok ()) (hescapes : f.escapes = true)
    (hx : a.find? x = some n) (hn : n.isDocument = false) (hxplain : a.IsPlain x)
    (hy : b.find? y = some m) (hm : m.isDocument = false) (hyplain : b.IsPlain y) :
    f.serialize a x = f.serialize b y ↔ ∃ o, a.Outlines [x] o ∧ b.Outlines [y] o := by
  constructor
  · intro h
    obtain ⟨o, ho, hoplain⟩ := ha.wellFormed.exists_plain_outline hx hn hxplain
    obtain ⟨p, hp, hpplain⟩ := hb.wellFormed.exists_plain_outline hy hm hyplain
    rw [ha.wellFormed.serialize_eq hx ho, hb.wellFormed.serialize_eq hy hp] at h
    have hchars : o.chars f 0 ++ [] = p.chars f 0 ++ [] := by
      rw [Outline.chars, Outline.chars, Except.ok.inj h]
    obtain ⟨rfl, -⟩ := chars_inj hvalid hescapes hoplain hpplain (not_opens_nil f 0)
      (not_opens_nil f 0) hchars
    exact ⟨o, ho, hp⟩
  · rintro ⟨o, ho, hp⟩
    rw [ha.wellFormed.serialize_eq hx ho, hb.wellFormed.serialize_eq hy hp]

theorem serialize_eq_iff_text : ∃ a b : Arena, a.Reachable ∧ b.Reachable ∧
    a.IsPlain 1 ∧ b.IsPlain 2 ∧ Format.default.serialize a 1 = Format.default.serialize b 2 ∧
    ∃ o, a.Outlines [1] o ∧ b.Outlines [2] o := by
  have ha : (Operation.run [.createDocument, .createElement 0 "a", .setAttribute 1 "k" (.int 7),
      .createComment 0 "--", .appendChild 1 2] .empty).Reachable := ⟨⟨_, rfl⟩, by decide⟩
  have hb : (Operation.run [.createDocument, .createComment 0 "--", .createElement 0 "a",
      .setAttribute 2 "k" (.string "7"), .appendChild 2 1] .empty).Reachable :=
    ⟨⟨_, rfl⟩, by decide⟩
  have hx := isPlain_of_forall_nodes (by decide +kernel : ∀ n ∈ (Operation.run [.createDocument,
    .createElement 0 "a", .setAttribute 1 "k" (.int 7), .createComment 0 "--", .appendChild 1 2]
    .empty).nodes, n.data.label.IsPlain) 1
  have hy := isPlain_of_forall_nodes (by decide +kernel : ∀ n ∈ (Operation.run [.createDocument,
    .createComment 0 "--", .createElement 0 "a", .setAttribute 2 "k" (.string "7"),
    .appendChild 2 1] .empty).nodes, n.data.label.IsPlain) 2
  have hiff := ha.serialize_eq_iff (f := .default) hb rfl rfl rfl rfl hx rfl rfl hy
  have hout := hiff.1 (by decide +kernel)
  exact ⟨_, _, ha, hb, hx, hy, hiff.2 hout, hout⟩

end DocTree.Arena

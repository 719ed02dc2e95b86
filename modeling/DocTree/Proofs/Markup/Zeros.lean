import DocTree.Proofs.Arena.Equality
import DocTree.Proofs.Markup.Decoding

/-! Markup of equal nodes.  Zeros are equal as numbers whatever their signs, and the signs are
written: equal nodes are written alike just if no zeros of opposite sign face each other. -/

namespace DocTree

open Markup

inductive Value.OppositeZeros : Value → Value → Prop
  | mk : x.isZero = true → y.isZero = true → x.negative ≠ y.negative →
      OppositeZeros (double x) (double y)

def Attributes.OppositeZeros (s t : Attributes) : Prop :=
  ∃ name v w, s.get? name = some v ∧ t.get? name = some w ∧ v.OppositeZeros w

inductive NodeData.OppositeZeros : NodeData → NodeData → Prop
  | element : e.attributes.OppositeZeros f.attributes → OppositeZeros (element e) (element f)

/-- At one place of the subtrees of the ones and of the others an attribute is zero, with opposite
signs. -/
inductive Arena.OppositeZeros (a : Arena) : List NodeId → List NodeId → Prop
  | here : a.find? x = some n → a.find? y = some m → n.data.OppositeZeros m.data →
      OppositeZeros a (x :: xs) (y :: ys)
  | under : a.find? x = some n → a.find? y = some m → OppositeZeros a n.children m.children →
      OppositeZeros a (x :: xs) (y :: ys)
  | later : OppositeZeros a xs ys → OppositeZeros a (x :: xs) (y :: ys)

variable {v w : Value} {r s : List Char}

theorem Binary64.agrees_cases {x y : Binary64} (h : x.agrees y = true) :
    x = y ∨ x.isZero = true ∧ y.isZero = true := by
  simp only [agrees, Bool.and_eq_true, Bool.or_eq_true, beq_iff_eq] at h
  refine h.2.imp_left fun hbits => ?_
  cases x
  cases y
  exact congrArg mk hbits

theorem Binary64.print_of_isZero {x : Binary64} (hx : x.isZero = true) :
    x.print = if x.negative then ['-', '0'] else ['0'] := by
  have hnan : x.isNaN = false :=
    isNaN_eq_false_iff.2 (.inl (Nat.lt_of_le_of_lt (beq_iff_eq.1 hx).le (by decide)))
  have hinf : x.isInfinite = false :=
    beq_false_of_ne ((beq_iff_eq.1 hx).trans_ne (by decide))
  simp [print, printMagnitude, hnan, hinf, hx]

namespace Value

theorem not_oppositeZeros_self (v : Value) : ¬ v.OppositeZeros v := fun ⟨_, _, hsign⟩ => hsign rfl

theorem Same.eq_or_oppositeZeros (h : v.Same w) : v = w ∨ v.OppositeZeros w := by
  cases h with
  | @double x y h =>
    rcases Binary64.agrees_cases (Binary64.agrees_iff.2 h) with rfl | ⟨hx, hy⟩
    · exact .inl rfl
    by_cases hsign : x.negative = y.negative
    · have hmagnitude := (beq_iff_eq.1 hx).trans (beq_iff_eq.1 hy).symm
      exact .inl (congrArg _ (Binary64.ext_magnitude hsign hmagnitude))
    · exact .inr ⟨hx, hy, hsign⟩
  | _ => exact .inl rfl

theorem OppositeZeros.text_ne (h : v.OppositeZeros w) (f : Format) :
    (if f.escapes then Text.escape v.text else v.text).toList ++ r ≠
      (if f.escapes then Text.escape w.text else w.text).toList ++ s := by
  have hsigned : Text.escapeChars ['-', '0'] = ['-', '0'] := rfl
  have hplain : Text.escapeChars ['0'] = ['0'] := rfl
  obtain ⟨hx, hy, hsign⟩ := h
  simp only [text, print, Binary64.print_of_isZero hx, Binary64.print_of_isZero hy]
  cases f.escapes <;> revert hsign <;> split <;> split <;> simp_all

theorem Same.attribute_append_eq_iff (h : v.Same w) (f : Format) (name : String) :
    (f.attributeText (name, v.text)).toList ++ r = (f.attributeText (name, w.text)).toList ++ s ↔
      v = w ∧ r = s := by
  rcases h.eq_or_oppositeZeros with rfl | h
  · rw [List.append_cancel_left_eq, and_iff_right rfl]
  · refine iff_of_false (fun heq => ?_) fun hvw => w.not_oppositeZeros_self (hvw.1 ▸ h)
    simp only [Format.attributeText, String.toList_append, List.append_assoc] at heq
    have hvalue := List.append_cancel_left (List.append_cancel_left (List.append_cancel_left heq))
    exact h.text_ne f hvalue

end Value

namespace Attributes

variable {s t : Attributes} {es fs : List (String × Value)} {u w : List Char}

theorem entries_append_eq_iff (h : List.Forall₂ SameEntry es fs) (f : Format) :
    es.flatMap (fun e => (f.attributeText (e.1, e.2.text)).toList) ++ u =
      fs.flatMap (fun e => (f.attributeText (e.1, e.2.text)).toList) ++ w ↔ es = fs ∧ u = w := by
  induction h with
  | nil => simp
  | @cons e g es fs hsame _ ih =>
    obtain ⟨hname, hvalue⟩ := hsame
    rw [List.flatMap_cons, List.flatMap_cons, List.append_assoc, List.append_assoc, ← hname,
      hvalue.attribute_append_eq_iff, ih, List.cons.injEq, Prod.ext_iff, and_iff_right hname,
      and_assoc]

theorem not_oppositeZeros_self (s : Attributes) : ¬ s.OppositeZeros s := by
  rintro ⟨name, v, w, hv, hw, hopp⟩
  obtain rfl := Option.eq_some_unique hv hw
  exact v.not_oppositeZeros_self hopp

theorem Same.not_oppositeZeros_iff (h : s.Same t) : ¬ s.OppositeZeros t ↔ s = t := by
  constructor
  · intro hzeros
    have hentries := same_iff_forall₂.1 h
    have heq : s.entries = t.entries := by
      refine List.forall₂_eq_eq_eq ▸ List.forall₂_iff_zip.2 ⟨hentries.length_eq, ?_⟩
      intro e g hmem
      obtain ⟨hname, hvalue⟩ := (List.forall₂_iff_zip.1 hentries).2 hmem
      obtain ⟨he, hg⟩ := List.of_mem_zip hmem
      refine Prod.ext hname (hvalue.eq_or_oppositeZeros.resolve_right fun hopp => hzeros ?_)
      exact ⟨e.1, e.2, g.2, mem_entries_iff.1 he, mem_entries_iff.1 (hname ▸ hg), hopp⟩
    cases s
    cases t
    simpa using heq
  · rintro rfl
    exact s.not_oppositeZeros_self

end Attributes

theorem NodeData.not_oppositeZeros_self (data : NodeData) : ¬ data.OppositeZeros data := by
  cases data with
  | element e => exact fun ⟨h⟩ => e.attributes.not_oppositeZeros_self h
  | _ => exact nofun

theorem NodeData.Same.not_oppositeZeros_iff {a b : NodeData} (h : a.Same b) :
    ¬ a.OppositeZeros b ↔ a = b := by
  cases h with
  | document => exact iff_of_true nofun rfl
  | comment => exact iff_of_true nofun rfl
  | @element e f hname hsame =>
    have hiff : (NodeData.element e).OppositeZeros (.element f) ↔
        e.attributes.OppositeZeros f.attributes := ⟨fun ⟨h⟩ => h, .element⟩
    rw [hiff, hsame.not_oppositeZeros_iff]
    cases e
    cases f
    simp_all

namespace Markup

variable {f : Format}

theorem startTag_append_eq_iff {s t : Attributes} (h : s.Same t) (f : Format) (name : String)
    {u w : List Char} :
    (f.startTag name s.resolved).toList ++ u = (f.startTag name t.resolved).toList ++ w ↔
      s = t ∧ u = w := by
  have hentries := Attributes.entries_append_eq_iff (Attributes.same_iff_forall₂.1 h) f
    (u := '>' :: u) (w := '>' :: w)
  have hext : s = t ↔ s.entries = t.entries := by
    cases s
    cases t
    simp
  rw [List.cons_inj_right] at hentries
  rw [hext, ← hentries]
  simp [Format.startTag, Attributes.resolved_eq_map, String.toList_join, List.flatMap_map]

theorem chars_document (f : Format) (cs os : Outline) (depth : Nat) :
    (Outline.node .document cs os).chars f depth ++ r =
      (if f.declaration then (f.line depth declarationLine).toList else []) ++
        (cs.chars f depth ++ (os.chars f depth ++ r)) := by
  cases hdecl : f.declaration <;> simp [Outline.chars, Outline.lines, hdecl, String.toList_join]

theorem chars_node_append_eq_iff {n m : Node} (h : n.data.Same m.data) {cs ds os ps : Outline}
    {C S : Prop}
    (hchildren : ∀ depth u w, cs.chars f depth ++ u = ds.chars f depth ++ w ↔ C ∧ u = w)
    (hrest : ∀ depth u w, os.chars f depth ++ u = ps.chars f depth ++ w ↔ S ∧ u = w)
    (hleaf : n.isComment = true → C) (depth : Nat) :
    (Outline.node n.data.label cs os).chars f depth ++ r =
        (Outline.node m.data.label ds ps).chars f depth ++ s ↔
      ¬ n.data.OppositeZeros m.data ∧ C ∧ S ∧ r = s := by
  rw [h.not_oppositeZeros_iff]
  rw [Node.isComment, Node.kind, decide_eq_true_iff] at hleaf
  revert h hleaf
  generalize n.data = d
  generalize m.data = e
  rintro (_ | @⟨e, g, hname, hsame⟩ | _) hleaf
  case document =>
    rw [NodeData.label, chars_document, chars_document, List.append_cancel_left_eq, hchildren,
      hrest, and_iff_right rfl]
  case element =>
    rw [NodeData.label, NodeData.label, ← hname, chars_element, chars_element,
      List.append_cancel_left_eq, startTag_append_eq_iff hsame, List.cons_inj_right, hchildren,
      List.append_cancel_left_eq, List.append_cancel_left_eq, List.cons_inj_right, hrest]
    refine and_congr_left' ?_
    cases e
    cases g
    simp_all
  case comment =>
    rw [NodeData.label, chars_comment, chars_comment, List.append_cancel_left_eq,
      List.append_cancel_left_eq, List.cons_inj_right, hrest, and_iff_right rfl,
      and_iff_right (hleaf rfl)]

end Markup

namespace Arena

variable {a : Arena} {x y : NodeId} {n m : Node} {xs ys : List NodeId} {o p : Outline}
  {r s : List Char}

theorem not_oppositeZeros_nil : ¬ a.OppositeZeros [] ys := nofun

theorem oppositeZeros_cons_iff (hx : a.find? x = some n) (hy : a.find? y = some m) :
    a.OppositeZeros (x :: xs) (y :: ys) ↔ n.data.OppositeZeros m.data ∨
      a.OppositeZeros n.children m.children ∨ a.OppositeZeros xs ys := by
  constructor
  · intro h
    cases h with
    | here hx' hy' h =>
      obtain rfl := Option.eq_some_unique hx hx'
      obtain rfl := Option.eq_some_unique hy hy'
      exact .inl h
    | under hx' hy' h =>
      obtain rfl := Option.eq_some_unique hx hx'
      obtain rfl := Option.eq_some_unique hy hy'
      exact .inr (.inl h)
    | later h => exact .inr (.inr h)
  · rintro (h | h | h)
    · exact .here hx hy h
    · exact .under hx hy h
    · exact .later h

theorem OppositeZeros.ne (h : a.OppositeZeros xs ys) : xs ≠ ys := by
  induction h with
  | @here x n y m xs ys hx hy h =>
    rintro ⟨⟩
    obtain rfl := Option.eq_some_unique hx hy
    exact n.data.not_oppositeZeros_self h
  | under hx hy _ ih =>
    rintro ⟨⟩
    obtain rfl := Option.eq_some_unique hx hy
    exact ih rfl
  | later _ ih =>
    rintro ⟨⟩
    exact ih rfl

theorem WellFormed.chars_append_eq_iff (h : a.WellFormed) (hxy : a.Twins xs ys)
    (ho : a.Outlines xs o) (hp : a.Outlines ys p) (f : Format) (depth : Nat) (r s : List Char) :
    o.chars f depth ++ r = p.chars f depth ++ s ↔ ¬ a.OppositeZeros xs ys ∧ r = s := by
  -- What follows the children of a node is part of the text that follows them, so `r` and `s` vary.
  induction hxy generalizing o p depth r s with
  | nil =>
    cases ho
    cases hp
    simp [not_oppositeZeros_nil]
  | @cons x n y m xs ys hx hy hdata _ _ ihc ihs =>
    obtain _ | @⟨_, _, cs, _, os, hx', hcs, hos⟩ := ho
    obtain _ | @⟨_, _, ds, _, ps, hy', hds, hps⟩ := hp
    obtain rfl := Option.eq_some_unique hx hx'
    obtain rfl := Option.eq_some_unique hy hy'
    have hleaf : n.isComment = true → ¬ a.OppositeZeros n.children m.children := fun hn => by
      rw [h.comment_children hx hn]
      exact not_oppositeZeros_nil
    rw [chars_node_append_eq_iff hdata (ihc hcs hds) (ihs hos hps) hleaf,
      oppositeZeros_cons_iff hx hy, not_or, not_or, and_assoc, and_assoc]

/-- Equal nodes are written alike just if no zeros of opposite sign face each other below them. -/
theorem Reachable.serialize_eq_iff_of_isEqual (ha : a.Reachable) (hx : a.find? x = some n)
    (hy : a.find? y = some m) (hxy : a.isEqual x y = .ok true) (f : Format) :
    ∃ s t, f.serialize a x = .ok s ∧ f.serialize a y = .ok t ∧
      (s = t ↔ ¬ a.OppositeZeros [x] [y]) := by
  have h := ha.wellFormed
  obtain ⟨o, ho, -⟩ := (h.preorder_spec hx).2.exists_outlines
  obtain ⟨p, hp, -⟩ := (h.preorder_spec hy).2.exists_outlines
  refine ⟨_, _, h.serialize_eq hx ho f, h.serialize_eq hy hp f, ?_⟩
  rcases (h.equalityLaws.decides hx hy).eq_true_iff.1 hxy with rfl | htwins
  · rw [ho.unique hp]
    exact iff_of_true rfl fun hzeros => hzeros.ne rfl
  · have hchars := h.chars_append_eq_iff htwins ho hp f 0 [] []
    rw [List.append_nil, List.append_nil, and_iff_left rfl] at hchars
    rw [← hchars, Outline.chars, Outline.chars, String.toList_inj]

theorem serialize_eq_iff_of_isEqual_order : ∃ a : Arena, a.Reachable ∧ a.isEqual 1 2 = .ok true ∧
    ∃ s t, Format.default.serialize a 1 = .ok s ∧ Format.default.serialize a 2 = .ok t ∧
      (s = t ↔ ¬ a.OppositeZeros [1] [2]) := by
  have h : (Operation.run [.createDocument, .createElement 0 "a", .createElement 0 "a",
      .setAttribute 1 "v" (.double ⟨0x8000000000000000⟩), .setAttribute 1 "b" (.bool true),
      .setAttribute 2 "b" (.bool true), .setAttribute 2 "v" (.double ⟨0x8000000000000000⟩),
      .createComment 0 "c", .createComment 0 "c", .appendChild 1 3, .appendChild 2 4]
      .empty).Reachable := ⟨⟨_, rfl⟩, by decide +kernel⟩
  refine ⟨_, h, ?_, h.serialize_eq_iff_of_isEqual (Option.some_get (by decide +kernel)).symm
    (Option.some_get (by decide +kernel)).symm ?_ .default⟩ <;> decide +kernel

theorem serialize_zero_ne : ¬ ∀ (a : Arena) (x y : NodeId) (n m : Node) (f : Format),
    a.Reachable → a.find? x = some n → a.find? y = some m → a.isEqual x y = .ok true →
      ∃ s, f.serialize a x = .ok s ∧ f.serialize a y = .ok s := by
  intro hall
  have h : (Operation.run [.createDocument, .createElement 0 "a", .setAttribute 1 "v" (.double ⟨0⟩),
      .createElement 0 "a", .setAttribute 2 "v" (.double ⟨0x8000000000000000⟩)]
      .empty).Reachable := ⟨⟨_, rfl⟩, by decide⟩
  obtain ⟨s, hs, ht⟩ := hall _ 1 2 _ _ .default h rfl rfl (by decide +kernel)
  exact absurd (hs.trans ht.symm) (by decide +kernel)

end Arena

end DocTree

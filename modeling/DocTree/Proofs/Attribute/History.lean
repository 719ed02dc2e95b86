import DocTree.Proofs.Attribute.Orders
import DocTree.Proofs.Edit.Operation

namespace DocTree

inductive AttributeCall
  | set (name : String) (value : Value)
  | remove (name : String)

namespace AttributeCall

def name : AttributeCall → String
  | set name _ => name
  | remove name => name

def value? : AttributeCall → Option Value
  | set _ value => some value
  | remove _ => none

def operation (x : NodeId) : AttributeCall → Operation
  | set name value => .setAttribute x name value
  | remove name => .removeAttribute x name

def apply (s : Attributes) : AttributeCall → Attributes
  | set name value => s.set name value
  | remove name => s.erase name

def performAll (x : NodeId) (calls : List AttributeCall) : Edit Unit :=
  calls.forM fun c => (c.operation x).perform

def lastValue (start : String → Option Value) (calls : List AttributeCall) (name : String) :
    Option Value :=
  match (calls.filter (·.name == name)).getLast? with
  | some c => c.value?
  | none => start name

theorem lastValue_nil (start : String → Option Value) : lastValue start [] = start := rfl

theorem lastValue_cons (start : String → Option Value) (c : AttributeCall)
    (calls : List AttributeCall) (name : String) :
    lastValue start (c :: calls) name =
      lastValue (fun k => if c.name = k then c.value? else start k) calls name := by
  by_cases hname : c.name = name
  · rw [lastValue, lastValue, List.filter_cons_of_pos (by simpa using hname), List.getLast?_cons,
      if_pos hname]
    cases (calls.filter (·.name == name)).getLast? <;> rfl
  · rw [lastValue, lastValue, List.filter_cons_of_neg (by simpa using hname), if_neg hname]

theorem get?_apply (c : AttributeCall) (s : Attributes) (name : String) :
    (c.apply s).get? name = if c.name = name then c.value? else s.get? name := by
  cases c with
  | set k value => exact Attributes.get?_set s k value name
  | remove k => exact Attributes.get?_erase s k name

theorem get?_foldl_apply (calls : List AttributeCall) (s : Attributes) :
    (calls.foldl apply s).get? = lastValue s.get? calls := by
  induction calls generalizing s with
  | nil => rfl
  | cons c calls ih =>
    funext name
    rw [List.foldl_cons, ih, lastValue_cons, funext (c.get?_apply s)]

end AttributeCall

open AttributeCall

namespace Table

/-- The table after a call: its entry stands at any place, and the others may have moved. -/
def After (t : Table) (c : AttributeCall) (u : Table) : Prop :=
  u.entries.Perm (c.value?.toList.map (c.name, ·) ++ t.entries.filter (·.1 != c.name))

instance (t u : Table) (c : AttributeCall) : Decidable (t.After c u) :=
  inferInstanceAs (Decidable (List.Perm _ _))

inductive Run : Table → List AttributeCall → Table → Prop
  | nil {t} : Run t [] t
  | cons {t u v c calls} (hc : t.After c u) (h : Run u calls v) : Run t (c :: calls) v

variable {t u : Table} {c : AttributeCall} {calls : List AttributeCall}

theorem After.get?_eq (h : t.After c u) (name : String) :
    u.get? name = if c.name = name then c.value? else t.get? name := by
  refine Option.ext fun w => ?_
  rw [← mem_entries_iff, h.mem_iff, List.mem_append, List.mem_filter, mem_entries_iff]
  by_cases hname : c.name = name
  · simp [hname]
  · simp [hname, Ne.symm hname]

theorem Run.get?_eq (h : t.Run calls u) : u.get? = lastValue t.get? calls := by
  induction h with
  | nil => rfl
  | cons hc _ ih =>
    funext name
    rw [ih, lastValue_cons, funext hc.get?_eq]

end Table

namespace Arena

def give (a : Arena) (x : NodeId) (e : Element) (s : Attributes) : Arena :=
  a.update x ({ · with data := .element { e with attributes := s } })

/-- What is read of the element is what the table gives of its attributes. -/
structure ReadsFrom (a : Arena) (x : NodeId) (t : Table) : Prop where
  names : a.attributeNames x = .ok t.names
  values : ∀ name, a.getAttribute x name = .ok (t.get? name)
  agrees : ∃ s, a.attributes x = .ok s ∧
    ∀ r : Attributes, t.agrees r.table = s.agrees r ∧ r.table.agrees t = r.agrees s
  selects : ∀ l : SelectorList, l.Unambiguous t → ∀ y,
    l.evaluateIn a (Function.update a.tables x t) y = a.isSelected y l
  markup : ∀ (f : Markup.Format) (y : NodeId),
    f.serializeIn a (Function.update a.tables x t) y = f.serialize a y

/-- No reader of the element tells the tables apart, in whatever order the attributes of the other
elements are. -/
structure Indistinct (a : Arena) (x : NodeId) (t u : Table) : Prop where
  names : t.names = u.names
  values : t.get? = u.get?
  agrees : ∀ v : Table, t.agrees v = u.agrees v ∧ v.agrees t = v.agrees u
  selects : ∀ l : SelectorList, l.Unambiguous t → ∀ (o : NodeId → Table) (y : NodeId),
    l.evaluateIn a (Function.update o x t) y = l.evaluateIn a (Function.update o x u) y
  markup : ∀ (f : Markup.Format) (o : NodeId → Table) (y : NodeId),
    f.serializeIn a (Function.update o x t) y = f.serializeIn a (Function.update o x u) y

variable {a : Arena} {x : NodeId} {n : Node} {e : Element} {t u : Table} {s r : Attributes}

theorem ElementAt.give (h : a.ElementAt x e) (s : Attributes) :
    (a.give x e s).ElementAt x { e with attributes := s } := by
  obtain ⟨n, hx, -⟩ := h
  refine ⟨{ n with data := .element { e with attributes := s } }, ?_, rfl⟩
  rw [Arena.give, find?_update, if_pos rfl, hx]
  rfl

theorem give_self (h : a.ElementAt x e) : a.give x e e.attributes = a := by
  obtain ⟨n, hx, hn⟩ := h
  refine ext_find? (by simp [give]) rfl fun y => ?_
  rw [give, find?_update]
  split
  next heq =>
    subst heq
    rw [hx, Option.map_some, ← hn]
  next => rfl

theorem give_give (a : Arena) (x : NodeId) (e : Element) (s r : Attributes) :
    (a.give x e s).give x { e with attributes := s } r = a.give x e r := by
  refine ext_find? (by simp [give]) rfl fun y => ?_
  simp only [give, find?_update]
  split
  · cases a.find? y <;> rfl
  · rfl

theorem run_call (h : a.ElementAt x e) (c : AttributeCall) :
    ((c.operation x).perform).run a = .ok () (a.give x e (c.apply e.attributes)) := by
  obtain ⟨n, hx, hn⟩ := h
  cases c with
  | set name value =>
    change EStateM.run (Functor.map (fun _ => ()) (Edit.updateAttributes x _)) a = _
    rw [run_map, Edit.run_updateAttributes hx hn]
    rfl
  | remove name =>
    change EStateM.run (discard (Edit.removeAttribute x name)) a = _
    rw [Edit.removeAttribute, discard_return, discard, map_const]
    change EStateM.run (Functor.map (fun _ => ()) (Edit.updateAttributes x _)) a = _
    rw [run_map, Edit.run_updateAttributes hx hn]
    rfl

theorem run_performAll (h : a.ElementAt x e) (calls : List AttributeCall) :
    (performAll x calls).run a = .ok () (a.give x e (calls.foldl apply e.attributes)) := by
  induction calls generalizing a e with
  | nil => exact congrArg (EStateM.Result.ok ()) (give_self h).symm
  | cons c calls ih =>
    have hrest := ih (h.give (c.apply e.attributes))
    change EStateM.run ((c.operation x).perform >>= fun _ => performAll x calls) a = _
    rw [EStateM.run_bind, run_call h]
    exact hrest.trans (congrArg (EStateM.Result.ok ()) (give_give a x e _ _))

theorem ElementAt.readsFrom (h : a.ElementAt x e) (ht : t.Alike e.attributes.table) :
    a.ReadsFrom x t := by
  obtain ⟨n, hx, hn⟩ := h
  have helement : a.element x = .ok e := element_eq_ok_iff.2 ⟨n, hx, hn⟩
  have htables : Function.update a.tables x e.attributes.table = a.tables := by
    rw [← tables_eq hx (element?_eq_some_iff.2 hn), Function.update_eq_self]
  refine ⟨?_, fun name => ?_, ⟨e.attributes, ?_, fun r => ?_⟩, fun l hl y => ?_, fun f y => ?_⟩
  · simp [attributeNames, attributes, helement, ht.names_eq, Table.names_table]
  · simp only [getAttribute, attributes, helement, ok_bind, pure_eq_ok, ht name]
    rfl
  · simp [attributes, helement]
  · rw [ht.agrees_left, ht.agrees_right, Table.agrees_table, Table.agrees_table]
    exact ⟨rfl, rfl⟩
  · rw [SelectorList.evaluateIn_update ht hl, htables, SelectorList.evaluateIn_tables]
    exact (l.follows_selects a y).fresh_eq.symm
  · rw [f.serializeIn_update ht, htables, f.serializeIn_tables]

theorem indistinct_of_alike (h : t.Alike u) (a : Arena) (x : NodeId) : a.Indistinct x t u where
  names := h.names_eq
  values := funext h
  agrees v := ⟨h.agrees_left v, h.agrees_right v⟩
  selects _ hl o y := congrFun (SelectorList.evaluateIn_update h hl a o x) y
  markup f o y := f.serializeIn_update h a o x y

/-- Calls that leave the same value under every name leave the same arena.  What is read of the
element is what the tables that they leave give, and nothing tells these tables apart, however their
entries have come to stand. -/
theorem ElementAt.order_never_shows (h : a.ElementAt x e) {t₀ u₀ : Table}
    (ht₀ : t₀.Alike e.attributes.table) (hu₀ : u₀.Alike e.attributes.table)
    {calls others : List AttributeCall} (ht : t₀.Run calls t) (hu : u₀.Run others u)
    (hlast : ∀ name,
      lastValue e.attributes.get? calls name = lastValue e.attributes.get? others name) :
    t.names.Pairwise (· < ·) ∧
    (∀ name, name ∈ t.names ↔ (lastValue e.attributes.get? calls name).isSome = true) ∧
    (∀ name, t.get? name = lastValue e.attributes.get? calls name) ∧
    ∃ b, (performAll x calls).run a = .ok () b ∧ (performAll x others).run a = .ok () b ∧
      b.ReadsFrom x t ∧ b.ReadsFrom x u ∧ b.Indistinct x t u := by
  have htget : t.get? = lastValue e.attributes.get? calls :=
    ht.get?_eq.trans (congrArg (lastValue · calls) (funext ht₀))
  have huget : u.get? = lastValue e.attributes.get? others :=
    hu.get?_eq.trans (congrArg (lastValue · others) (funext hu₀))
  have halike : t.Alike u := fun name => by rw [htget, huget, hlast name]
  have hrun := run_performAll h calls
  have hrun' := run_performAll h others
  generalize hs : calls.foldl apply e.attributes = s at hrun
  have hsget : s.get? = t.get? := by rw [← hs, get?_foldl_apply, htget]
  have hsame : others.foldl apply e.attributes = s := by
    refine Attributes.ext_get? fun name => ?_
    rw [get?_foldl_apply, hsget, halike name, huget]
  rw [hsame] at hrun'
  have htable : t.Alike s.table := fun name => (congrFun hsget name).symm
  refine ⟨t.ascending_names, fun name => ?_, congrFun htget, _, hrun, hrun',
    (h.give s).readsFrom htable, (h.give s).readsFrom (halike.symm.trans htable),
    indistinct_of_alike halike _ x⟩
  rw [Table.mem_names_iff, htget]

theorem order_never_shows_moved : ∃ (a b : Arena) (e : Element) (t u : Table)
    (calls others : List AttributeCall), a.Reachable ∧ a.ElementAt 1 e ∧
    calls = [.set "C" (.double ⟨0x7ff8000000000000⟩), .set "d" (.int 2), .remove "d",
      .set "a" (.int 1)] ∧
    others = [.set "a" (.string "1"), .set "C" (.double ⟨0x7ff8000000000000⟩),
      .set "a" (.int 1)] ∧
    e.attributes.table.Run calls t ∧ e.attributes.table.Run others u ∧ t.entries ≠ u.entries ∧
    (∀ name, lastValue e.attributes.get? calls name = lastValue e.attributes.get? others name) ∧
    (performAll 1 calls).run a = .ok () b ∧ (performAll 1 others).run a = .ok () b ∧
    b.ReadsFrom 1 t ∧ b.Indistinct 1 t u := by
  let nan : Value := .double ⟨0x7ff8000000000000⟩
  have ha : (Operation.run [.createDocument, .createElement 0 "e",
      .setAttribute 1 "b" (.bool true)] .empty).Reachable := ⟨⟨_, rfl⟩, by decide⟩
  have h : (Operation.run [.createDocument, .createElement 0 "e",
      .setAttribute 1 "b" (.bool true)] .empty).ElementAt 1
        ⟨"e", Attributes.empty.set "b" (.bool true)⟩ := ⟨_, rfl, rfl⟩
  have ht : (Attributes.empty.set "b" (.bool true)).table.Run
      [.set "C" nan, .set "d" (.int 2), .remove "d", .set "a" (.int 1)]
      ⟨[("a", .int 1), ("b", .bool true), ("C", nan)], by decide⟩ :=
    .cons (u := ⟨[("b", .bool true), ("C", nan)], by decide⟩) (by decide) <|
    .cons (u := ⟨[("d", .int 2), ("b", .bool true), ("C", nan)], by decide⟩) (by decide) <|
    .cons (u := ⟨[("C", nan), ("b", .bool true)], by decide⟩) (by decide) <|
    .cons (by decide) .nil
  have hu : (Attributes.empty.set "b" (.bool true)).table.Run
      [.set "a" (.string "1"), .set "C" nan, .set "a" (.int 1)]
      ⟨[("C", nan), ("b", .bool true), ("a", .int 1)], by decide⟩ :=
    .cons (u := ⟨[("b", .bool true), ("a", .string "1")], by decide⟩) (by decide) <|
    .cons (u := ⟨[("a", .string "1"), ("b", .bool true), ("C", nan)], by decide⟩) (by decide) <|
    .cons (by decide) .nil
  have hlast : ∀ name, lastValue (Attributes.empty.set "b" (.bool true)).get?
        [.set "C" nan, .set "d" (.int 2), .remove "d", .set "a" (.int 1)] name =
      lastValue (Attributes.empty.set "b" (.bool true)).get?
        [.set "a" (.string "1"), .set "C" nan, .set "a" (.int 1)] name := by
    intro name
    simp only [lastValue_cons, lastValue_nil, AttributeCall.name, value?]
    by_cases hname : "d" = name
    · subst hname
      decide
    · by_cases hname' : "a" = name <;> simp [hname, hname']
  obtain ⟨-, -, -, b, hcalls, hothers, hread, -, hsame⟩ :=
    h.order_never_shows (fun _ => rfl) (fun _ => rfl) ht hu hlast
  exact ⟨_, b, _, _, _, _, _, ha, h, rfl, rfl, ht, hu, by decide, hlast, hcalls, hothers, hread,
    hsame⟩

end Arena

end DocTree

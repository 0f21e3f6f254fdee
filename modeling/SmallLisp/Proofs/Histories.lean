import SmallLisp.Proofs.Trees

/-!
# Histories of a tree

A tree of frames is grown, and its variables are declared, assigned and looked up. A ledger
(`Ledger`) serves the same operations from the list of all declarations and assignments that came about.
Each operation has the same answer by both, and leads from a tree that holds what the ledger says to
another one (`ScopeTree.Refines.perform`). Main statement: `ScopeTree.run_refines`.
-/

set_option autoImplicit false

namespace SmallLisp

namespace ScopeTree

variable {t : ScopeTree}

/-! ## What the frames hold -/

/-- The names that a frame holds itself, in the order of their declaration. -/
def names (t : ScopeTree) (j : Nat) : List String := (t.frames[j]?.map (·.frame.names)).getD []

/-- The value of a variable that a frame holds itself. -/
def held (t : ScopeTree) (j : Nat) (x : String) : Option Value := t.frames[j]?.bind (·.frame.get? x)

/-- The variable that a name means in a frame, by the number of the frame that holds it, and its value. -/
def find (t : ScopeTree) (i : Nat) (x : String) : Option (Nat × Value) := do
  let s ← t.scope? i
  let (hops, v) ← s.find? x
  (t.path i)[hops]?.map (·, v)

theorem isSome_held_iff {j : Nat} {x : String} : (t.held j x).isSome ↔ x ∈ t.names j := by
  rw [held, names]
  cases t.frames[j]? with
  | none => simp
  | some node => exact Frame.get?_isSome_iff

/-- A name means the variable of the first frame along the path that holds it. -/
theorem find_eq (t : ScopeTree) (i : Nat) (x : String) :
    t.find i x = (t.path i).findSome? fun j => (t.held j x).map (j, ·) := by
  have halong (js : List Nat) (hjs : ∀ j ∈ js, j < t.frames.length) :
      ((Scope.findIn x (js.filterMap fun j => t.frames[j]?.map (·.frame))).bind fun (hops, v) =>
        js[hops]?.map (·, v)) = js.findSome? fun j => (t.held j x).map (j, ·) := by
    induction js with
    | nil => rfl
    | cons j js ih =>
      obtain ⟨hj, hjs⟩ := List.forall_mem_cons.1 hjs
      have hnode := List.getElem?_eq_getElem hj
      rw [List.filterMap_cons, List.findSome?_cons, held, hnode, ← ih hjs]
      simp only [Option.map_some, Option.bind_some, Scope.findIn]
      cases (t.frames[j]).frame.get? x with
      | some v => rfl
      | none =>
        simp only [Option.map_none, Option.bind_map]
        rfl
  rcases Nat.lt_or_ge i t.frames.length with hi | hi
  · obtain ⟨s, hs⟩ := exists_scope? hi
    rw [← halong _ fun j hj => lt_length_of_mem_path hj, find, hs, ← frames_of_scope? hs]
    rfl
  · rw [find, scope?_eq_none hi, path_of_length_le hi]
    rfl

theorem Ordered.held_restore_modify (ht : t.Ordered) {i k j : Nat} {s : Scope} (h : t.scope? i = some s)
    (hk : (t.path i)[k]? = some j) (c : Frame → Frame) (n : Nat) (x : String) :
    (t.restore i (s.modify k c)).held n x =
      if j = n then t.frames[n]?.bind fun node => (c node.frame).get? x else t.held n x := by
  rw [held, ht.restore_modify h hk, List.getElem?_modify, held]
  split <;> cases t.frames[n]? <;> rfl

theorem Ordered.names_restore_modify (ht : t.Ordered) {i k j : Nat} {s : Scope} (h : t.scope? i = some s)
    (hk : (t.path i)[k]? = some j) (c : Frame → Frame) (n : Nat) :
    (t.restore i (s.modify k c)).names n =
      if j = n then (t.frames[n]?.map fun node => (c node.frame).names).getD [] else t.names n := by
  rw [names, ht.restore_modify h hk, List.getElem?_modify, names]
  split <;> cases t.frames[n]? <;> rfl

theorem names_child (t : ScopeTree) (i j : Nat) : (t.child i).names j = t.names j := by
  rw [names, names, child_getElem?]
  split
  · rename_i hj
    rw [hj, List.getElem?_eq_none (Nat.le_refl _)]
    rfl
  · rfl

theorem held_child (t : ScopeTree) (i j : Nat) (x : String) : (t.child i).held j x = t.held j x := by
  rw [held, held, child_getElem?]
  split
  · rename_i hj
    rw [hj, List.getElem?_eq_none (Nat.le_refl _)]
    rfl
  · rfl

theorem valueAt_scope {i : Nat} {s : Scope} (h : t.scope? i = some s) (k : Nat) (x : String) :
    Scope.valueAt s.frames k x = (t.path i)[k]?.bind (t.held · x) := by
  rw [Scope.valueAt, scope?_getElem? h]
  cases (t.path i)[k]? with
  | none => rfl
  | some j =>
    rw [Option.bind_some, Option.bind_some, held]
    cases t.frames[j]? <;> rfl

/-- What a name means in a scope, it means in the frame of the tree. -/
theorem find_of_scope {i : Nat} {s : Scope} (h : t.scope? i = some s) (x : String) :
    s.find? x = none ∧ t.find i x = none ∨ ∃ hops j v, s.find? x = some (hops, v) ∧
      (t.path i)[hops]? = some j ∧ t.find i x = some (j, v) ∧ t.held j x = some v := by
  cases hf : s.find? x with
  | none => exact .inl ⟨rfl, by simp [find, h, hf]⟩
  | some p =>
    obtain ⟨hops, v⟩ := p
    have hv := (Scope.findIn_eq_some_iff.1 hf).1
    rw [valueAt_scope h, Option.bind_eq_some_iff] at hv
    obtain ⟨j, hj, hv⟩ := hv
    exact .inr ⟨hops, j, v, rfl, hj, by simp [find, h, hf, hj], hv⟩

end ScopeTree

/-! ## Operations -/

/-- An operation on a frame of a tree. -/
inductive Operation
  | child
  | declare (x : String) (v : Value)
  | assign (x : String) (v : Value)
  | find (x : String)
  | lookup (x : String)

/-- What an operation answers. A variable is told by the number of the frame that holds it. -/
inductive Answer
  | noFrame
  | frame (i : Nat)
  | done
  | found (meaning? : Option (Nat × Value))
  | value (v : Value)
  | fault (f : Fault)

namespace ScopeTree

/-- A scope is changed, or else there is a fault. -/
def settle (t : ScopeTree) (i : Nat) : Except Fault Scope → Answer × ScopeTree
  | .ok s => (.done, t.restore i s)
  | .error f => (.fault f, t)

/-- An operation on the frame of this number. -/
def perform (t : ScopeTree) (i : Nat) (op : Operation) : Answer × ScopeTree :=
  match t.scope? i with
  | none => (.noFrame, t)
  | some s =>
    match op with
    | .child => (.frame t.frames.length, t.child i)
    | .declare x v => t.settle i (s.declare 0 x v)
    | .assign x v => t.settle i (s.assign x v)
    | .find x => (.found (t.find i x), t)
    | .lookup x =>
      match s.lookup x with
      | .ok v => (.value v, t)
      | .error f => (.fault f, t)

/-- Operations one after the other, each with the number of its frame. -/
def run (t : ScopeTree) : List (Nat × Operation) → List Answer × ScopeTree
  | [] => ([], t)
  | (i, op) :: ops =>
    let first := t.perform i op
    let rest := first.2.run ops
    (first.1 :: rest.1, rest.2)

end ScopeTree

/-! ## The reference store -/

/-- A record that a variable of a frame was given a value. -/
structure Entry where
  frame : Nat
  name : String
  value : Value
  /-- The variable was declared, not assigned. -/
  fresh : Bool

/-- A store that remembers all it was told: the numbers of each frame and of those around it, innermost
first, and the declarations and assignments that came about, oldest first. -/
structure Ledger where
  chains : List (List Nat)
  entries : List Entry

namespace Ledger

/-- The ledger of a tree of one empty frame. -/
def start : Ledger := ⟨[[0]], []⟩

def chain (L : Ledger) (i : Nat) : List Nat := L.chains[i]?.getD []

/-- The names that were declared in a frame, in their order. -/
def names (L : Ledger) (j : Nat) : List String :=
  (L.entries.filter fun e => e.fresh ∧ e.frame = j).map (·.name)

/-- The value that a variable of a frame was given most recently. -/
def latest? (L : Ledger) (j : Nat) (x : String) : Option Value :=
  (L.entries.filter fun e => e.frame = j ∧ e.name = x).getLast?.map (·.value)

/-- The nearest frame in which a name was declared, the frame itself or one around it. -/
def nearest? (L : Ledger) (i : Nat) (x : String) : Option Nat :=
  (L.chain i).find? fun j => x ∈ L.names j

/-- The variable that a name means in a frame. -/
def meaning? (L : Ledger) (i : Nat) (x : String) : Option (Nat × Value) := do
  let j ← L.nearest? i x
  (L.latest? j x).map (j, ·)

def record (L : Ledger) (e : Entry) : Ledger := { L with entries := L.entries ++ [e] }

/-- A new frame within a frame. -/
def grow (L : Ledger) (i : Nat) : Ledger :=
  { L with chains := L.chains ++ [L.chains.length :: L.chain i] }

/-- What an operation comes to by the ledger. -/
def perform (L : Ledger) (i : Nat) (op : Operation) : Answer × Ledger :=
  if i < L.chains.length then
    match op with
    | .child => (.frame L.chains.length, L.grow i)
    | .declare x v =>
      if x ∈ L.names i then (.fault (.redeclared x), L) else (.done, L.record ⟨i, x, v, true⟩)
    | .assign x v =>
      match L.meaning? i x with
      | none => (.fault (.noTarget x), L)
      | some (j, w) =>
        if w.immutable then (.fault (.immutable x), L) else (.done, L.record ⟨j, x, v, false⟩)
    | .find x => (.found (L.meaning? i x), L)
    | .lookup x =>
      match L.meaning? i x with
      | none => (.fault (.noVariable x), L)
      | some (_, v) => (.value v, L)
  else (.noFrame, L)

def run (L : Ledger) : List (Nat × Operation) → List Answer × Ledger
  | [] => ([], L)
  | (i, op) :: ops =>
    let first := L.perform i op
    let rest := first.2.run ops
    (first.1 :: rest.1, rest.2)

section
variable (L : Ledger) (e : Entry) (j : Nat) (x : String)

theorem names_record : (L.record e).names j =
    L.names j ++ if e.fresh ∧ e.frame = j then [e.name] else [] := by
  rw [names, record, List.filter_append, List.map_append, names]
  by_cases h : e.fresh ∧ e.frame = j <;> simp [h]

theorem latest?_record : (L.record e).latest? j x =
    if e.frame = j ∧ e.name = x then some e.value else L.latest? j x := by
  rw [latest?, record, List.filter_append, latest?]
  by_cases h : e.frame = j ∧ e.name = x <;> simp [h]

theorem meaning?_record {e : Entry} (he : e.fresh = false) (i : Nat) : (L.record e).meaning? i x =
    if x = e.name ∧ L.nearest? i e.name = some e.frame then some (e.frame, e.value)
    else L.meaning? i x := by
  have hnearest : (L.record e).nearest? i x = L.nearest? i x := by
    simp only [nearest?, names_record, he, chain]
    simp [record]
  rw [meaning?, meaning?, hnearest]
  cases hn : L.nearest? i x with
  | none =>
    rw [if_neg]
    · rfl
    · rintro ⟨rfl, hsome⟩
      rw [hn] at hsome
      cases hsome
  | some j =>
    by_cases hx : x = e.name
    · subst hx
      simp only [hn, Option.bind_eq_bind, Option.bind_some, latest?_record]
      by_cases hj : e.frame = j
      · simp [hj]
      · simp [hj, Ne.symm hj]
    · simp [hx, Ne.symm hx, latest?_record]

theorem names_perform (i : Nat) (op : Operation) : L.names j <+: (L.perform i op).2.names j := by
  unfold perform
  split
  · cases op with
    | declare x v =>
      simp only
      split
      · exact List.prefix_refl _
      · rw [names_record]
        exact List.prefix_append _ _
    | assign x v =>
      simp only
      split
      · exact List.prefix_refl _
      · split
        · exact List.prefix_refl _
        · rw [names_record]
          exact List.prefix_append _ _
    | lookup x =>
      simp only
      split <;> exact List.prefix_refl _
    | _ => exact List.prefix_refl _
  · exact List.prefix_refl _

theorem names_run (ops : List (Nat × Operation)) : L.names j <+: (L.run ops).2.names j := by
  induction ops generalizing L with
  | nil => exact List.prefix_refl _
  | cons op ops ih => exact (L.names_perform j op.1 op.2).trans (ih _)

theorem chain_grow (i : Nat) : (L.grow i).chain j =
    if j = L.chains.length then L.chains.length :: L.chain i else L.chain j := by
  rw [chain, grow]
  grind [chain]

end

end Ledger

/-! ## Changes of one variable -/

namespace ScopeTree

/-- The second tree is the first after this entry: the variable has the value of the entry, a fresh one is
the youngest of its frame, and no other variable has changed. -/
structure Records (t : ScopeTree) (e : Entry) (t' : ScopeTree) : Prop where
  ordered : t'.Ordered
  length : t'.frames.length = t.frames.length
  path : ∀ i, t'.path i = t.path i
  names : ∀ n, t'.names n = t.names n ++ if e.fresh ∧ e.frame = n then [e.name] else []
  held : ∀ n y, t'.held n y = if e.frame = n ∧ e.name = y then some e.value else t.held n y

namespace Ordered

variable {t : ScopeTree} (ht : t.Ordered) {i : Nat} {s : Scope} (hs : t.scope? i = some s)
include ht hs

theorem records_declare {x : String} (hx : x ∉ t.names i) (v : Value) :
    t.Records ⟨i, x, v, true⟩ (t.restore i (s.modify 0 (·.bind x v))) := by
  have hi : (t.path i)[0]? = some i := path_head hs
  have hlt : i < t.frames.length := lt_length_of_mem_path (List.mem_of_getElem? hi)
  have hnone : t.held i x = none := by
    rwa [← isSome_held_iff, Bool.not_eq_true, Option.isSome_eq_false_iff, Option.isNone_iff_eq_none] at hx
  refine ⟨ht.restore i _, putAll_length .., path_restore t i _, fun n => ?_, fun n y => ?_⟩
  · rw [ht.names_restore_modify hs hi]
    by_cases hn : i = n
    · subst hn
      simp [names, List.getElem?_eq_getElem hlt]
    · simp [hn]
  · rw [ht.held_restore_modify hs hi]
    by_cases hn : i = n
    · subst hn
      rw [held, List.getElem?_eq_getElem hlt, Option.bind_some] at hnone ⊢
      by_cases hy : x = y
      · subst hy
        simp [Frame.get?_bind, hnone]
      · simp [Frame.get?_bind, hy]
    · simp [hn]

theorem records_assign {hops j : Nat} (hj : (t.path i)[hops]? = some j) {x : String}
    (hx : x ∈ t.names j) (v : Value) :
    t.Records ⟨j, x, v, false⟩ (t.restore i (s.write hops x v)) := by
  rw [Scope.write]
  refine ⟨ht.restore i _, putAll_length .., path_restore t i _, fun n => ?_, fun n y => ?_⟩
  · rw [ht.names_restore_modify hs hj]
    simp [names]
  · rw [ht.held_restore_modify hs hj]
    by_cases hn : j = n
    · subst hn
      have hlt : j < t.frames.length := lt_length_of_mem_path (List.mem_of_getElem? hj)
      rw [← isSome_held_iff] at hx
      rw [held, List.getElem?_eq_getElem hlt, Option.bind_some] at hx ⊢
      by_cases hy : x = y
      · subst hy
        obtain ⟨w, hw⟩ := Option.isSome_iff_exists.1 hx
        simp [Frame.get?_set, hw]
      · simp [Frame.get?_set, hy]
    · simp [hn]

end Ordered

/-- A new variable hides what its name meant in the frame before. -/
theorem Records.find_of_declared {t t' : ScopeTree} {i : Nat} {x : String} {v : Value}
    (hr : t.Records ⟨i, x, v, true⟩ t') (hi : i < t.frames.length) : t'.find i x = some (i, v) := by
  obtain ⟨around, hpath⟩ := exists_path_cons hi
  rw [find_eq, hr.path, hpath, List.findSome?_cons, hr.held]
  simp

/-! ## One operation -/

section
variable {t : ScopeTree} {i : Nat} {s : Scope} (hs : t.scope? i = some s) (x : String) (v : Value)
include hs

theorem perform_declare_eq : t.perform i (.declare x v) =
    if x ∈ t.names i then (.fault (.redeclared x), t)
    else (.done, t.restore i (s.modify 0 (·.bind x v))) := by
  have hheld : (Scope.valueAt s.frames 0 x).isSome ↔ x ∈ t.names i := by
    rw [valueAt_scope hs, path_head hs, Option.bind_some, isSome_held_iff]
  rw [perform, hs]
  simp only [Scope.declare_eq, hheld]
  split <;> rfl

theorem perform_assign_eq :
    t.find i x = none ∧ t.perform i (.assign x v) = (.fault (.noTarget x), t) ∨
    ∃ hops j w, (t.path i)[hops]? = some j ∧ t.find i x = some (j, w) ∧ x ∈ t.names j ∧
      t.perform i (.assign x v) =
        if w.immutable then (.fault (.immutable x), t)
        else (.done, t.restore i (s.write hops x v)) := by
  rw [perform, hs]
  obtain ⟨hfind, hnone⟩ | ⟨hops, j, w, hfind, hj, hsome, hheld⟩ := find_of_scope hs x
  · exact .inl ⟨hnone, by simp only [Scope.assign_eq, hfind, settle]⟩
  · have hx : x ∈ t.names j := isSome_held_iff.1 (Option.isSome_iff_exists.2 ⟨w, hheld⟩)
    refine .inr ⟨hops, j, w, hj, hsome, hx, ?_⟩
    simp only [Scope.assign_eq, hfind]
    split <;> rfl

theorem perform_lookup_eq : t.perform i (.lookup x) =
    match t.find i x with
    | none => (.fault (.noVariable x), t)
    | some (_, v) => (.value v, t) := by
  rw [perform, hs]
  obtain ⟨hfind, hnone⟩ | ⟨hops, j, w, hfind, hj, hsome, hheld⟩ := find_of_scope hs x
  · simp only [Scope.lookup, hfind, hnone]
  · simp only [Scope.lookup, hfind, hsome]

end

/-! ## Refinement -/

/-- The tree holds what the ledger says, and no frame of it holds a name twice. -/
structure Refines (t : ScopeTree) (L : Ledger) : Prop where
  ordered : t.Ordered
  length : L.chains.length = t.frames.length
  chain : ∀ i, L.chain i = t.path i
  names : ∀ j, t.names j = L.names j
  held : ∀ j x, t.held j x = L.latest? j x
  nodup : ∀ j, (t.names j).Nodup

namespace Refines

variable {t : ScopeTree} {L : Ledger} (h : t.Refines L)
include h

theorem mem_names_iff (j : Nat) (x : String) : x ∈ L.names j ↔ (L.latest? j x).isSome := by
  rw [← h.names, ← h.held, isSome_held_iff]

theorem find_eq_meaning? (i : Nat) (x : String) : t.find i x = L.meaning? i x := by
  have halong (js : List Nat) : (js.findSome? fun j => (t.held j x).map (j, ·)) =
      (js.find? fun j => x ∈ L.names j).bind fun j => (L.latest? j x).map (j, ·) := by
    induction js with
    | nil => rfl
    | cons j js ih =>
      have hmem := h.mem_names_iff j x
      rw [List.findSome?_cons, List.find?_cons, ih, h.held]
      cases hj : L.latest? j x <;> simp [hj, hmem]
  rw [find_eq, halong, ← h.chain]
  rfl

theorem grow {i : Nat} (hi : i < t.frames.length) : (t.child i).Refines (L.grow i) where
  ordered := h.ordered.child hi
  length := by simp [Ledger.grow, child, h.length]
  chain j := by
    rw [Ledger.chain_grow, h.length, h.chain]
    split
    · rename_i hj
      rw [hj, h.ordered.path_child hi]
    · rename_i hj
      rw [h.chain]
      rcases Nat.lt_or_gt_of_ne hj with hlt | hgt
      · exact (h.ordered.path_child_of_lt hlt).symm
      · have hlen : (t.child i).frames.length = t.frames.length + 1 := by simp [child]
        rw [path_of_length_le (Nat.le_of_lt hgt), path_of_length_le (hlen ▸ hgt)]
  names j := (names_child t i j).trans (h.names j)
  held j x := (held_child t i j x).trans (h.held j x)
  nodup j := by
    rw [names_child]
    exact h.nodup j

theorem record {t' : ScopeTree} {e : Entry} (hr : t.Records e t')
    (he : e.fresh → e.name ∉ t.names e.frame) : t'.Refines (L.record e) where
  ordered := hr.ordered
  length := h.length.trans hr.length.symm
  chain i := (h.chain i).trans (hr.path i).symm
  names n := by rw [hr.names, Ledger.names_record, h.names]
  held n y := by rw [hr.held, Ledger.latest?_record, h.held]
  nodup n := by
    rw [hr.names]
    split
    · rename_i hn
      obtain ⟨hfresh, rfl⟩ := hn
      have := he hfresh
      simpa [List.nodup_append] using ⟨h.nodup e.frame, fun y hy hyx => this (hyx ▸ hy)⟩
    · simpa using h.nodup n

/-- An operation has the same answer by the ledger, and leads to what the ledger then says. -/
theorem perform (i : Nat) (op : Operation) : (t.perform i op).1 = (L.perform i op).1 ∧
    (t.perform i op).2.Refines (L.perform i op).2 := by
  rcases Nat.lt_or_ge i t.frames.length with hi | hi
  · obtain ⟨s, hs⟩ := exists_scope? hi
    unfold Ledger.perform
    rw [if_pos (h.length ▸ hi)]
    cases op with
    | child =>
      rw [ScopeTree.perform, hs]
      exact ⟨congrArg Answer.frame h.length.symm, h.grow hi⟩
    | declare x v =>
      rw [perform_declare_eq hs, h.names]
      by_cases hx : x ∈ L.names i
      · simpa only [if_pos hx, true_and] using h
      · have hnew : x ∉ t.names i := by rwa [h.names]
        simp only [if_neg hx, true_and]
        exact h.record (h.ordered.records_declare hs hnew v) fun _ => hnew
    | assign x v =>
      simp only [← h.find_eq_meaning?]
      obtain ⟨hnone, hp⟩ | ⟨hops, j, w, hj, hsome, hx, hp⟩ := perform_assign_eq hs x v
      · simpa only [hp, hnone, true_and] using h
      · rw [hp]
        simp only [hsome]
        by_cases hw : w.immutable = true
        · simpa only [if_pos hw, true_and] using h
        · simp only [if_neg hw, true_and]
          exact h.record (h.ordered.records_assign hs hj hx v) fun hfresh => by cases hfresh
    | find x =>
      rw [ScopeTree.perform, hs]
      exact ⟨congrArg Answer.found (h.find_eq_meaning? i x), h⟩
    | lookup x =>
      rw [perform_lookup_eq hs, h.find_eq_meaning?]
      cases hv : L.meaning? i x with
      | none => simpa only [hv, true_and] using h
      | some p => simpa only [hv, true_and] using h
  · unfold Ledger.perform
    rw [ScopeTree.perform, scope?_eq_none hi, if_neg (by rw [h.length]; omega)]
    exact ⟨rfl, h⟩

omit h in
theorem start : (root .empty).Refines Ledger.start where
  ordered := .root .empty
  length := rfl
  chain i := by
    cases i with
    | zero => rfl
    | succ i =>
      rw [path_of_length_le (by simp [root])]
      simp [Ledger.chain, Ledger.start]
  names j := by
    cases j <;> rfl
  held j x := by
    cases j <;> rfl
  nodup j := by
    cases j <;> exact .nil

/-- A run has the same answers by the ledger, and leads to what the ledger then says. -/
theorem run (ops : List (Nat × Operation)) :
    (t.run ops).1 = (L.run ops).1 ∧ (t.run ops).2.Refines (L.run ops).2 := by
  induction ops generalizing t L with
  | nil => exact ⟨rfl, h⟩
  | cons op ops ih =>
    obtain ⟨i, op⟩ := op
    obtain ⟨hanswer, hnext⟩ := h.perform i op
    obtain ⟨hanswers, hlast⟩ := ih hnext
    refine ⟨?_, hlast⟩
    simp only [ScopeTree.run, Ledger.run, hanswer, hanswers]

/-- What a name means is the variable of the nearest frame that declared it, with its latest value. -/
theorem find_spec (i : Nat) (x : String) :
    match t.find i x with
    | none => ∀ j ∈ L.chain i, x ∉ L.names j
    | some (j, v) => L.nearest? i x = some j ∧ L.latest? j x = some v := by
  rw [h.find_eq_meaning?, Ledger.meaning?]
  cases hn : L.nearest? i x with
  | none => simpa [Ledger.nearest?] using hn
  | some j =>
    have hj : x ∈ L.names j := by simpa using List.find?_some hn
    obtain ⟨v, hv⟩ := Option.isSome_iff_exists.1 ((h.mem_names_iff j x).1 hj)
    simp [hv]

/-- An assignment is seen from exactly the frames whose nearest variable of that name it changed. -/
theorem find_of_assigned {t' : ScopeTree} {j : Nat} {x : String} {v : Value}
    (hr : t.Records ⟨j, x, v, false⟩ t') (k : Nat) (y : String) :
    t'.find k y = if y = x ∧ L.nearest? k x = some j then some (j, v) else t.find k y := by
  have h' := h.record hr fun hfresh => by cases hfresh
  rw [h'.find_eq_meaning?, h.find_eq_meaning?, Ledger.meaning?_record _ _ rfl]

/-- A declaration fails just for a name of the same frame. -/
theorem declare_spec {i : Nat} (hi : i < t.frames.length) (x : String) (v : Value) :
    if x ∈ t.names i then t.perform i (.declare x v) = (.fault (.redeclared x), t)
    else ∃ t', t.perform i (.declare x v) = (.done, t') ∧ t.Records ⟨i, x, v, true⟩ t' ∧
      t'.find i x = some (i, v) := by
  obtain ⟨s, hs⟩ := exists_scope? hi
  rw [perform_declare_eq hs]
  split
  · rfl
  · rename_i hx
    have hr := h.ordered.records_declare hs hx v
    exact ⟨_, rfl, hr, hr.find_of_declared hi⟩

/-- What a name means in a frame decides what it stands for, and whether it can be assigned. -/
theorem assign_spec {i : Nat} (hi : i < t.frames.length) (x : String) (v : Value) :
    match t.find i x with
    | none => t.perform i (.lookup x) = (.fault (.noVariable x), t) ∧
        t.perform i (.assign x v) = (.fault (.noTarget x), t)
    | some (j, w) => t.perform i (.lookup x) = (.value w, t) ∧
        if w.immutable then t.perform i (.assign x v) = (.fault (.immutable x), t)
        else ∃ t', t.perform i (.assign x v) = (.done, t') ∧ t.Records ⟨j, x, v, false⟩ t' ∧
          ∀ k y, t'.find k y =
            if y = x ∧ L.nearest? k x = some j then some (j, v) else t.find k y := by
  obtain ⟨s, hs⟩ := exists_scope? hi
  rw [perform_lookup_eq hs]
  obtain ⟨hnone, hp⟩ | ⟨hops, j, w, hj, hsome, hx, hp⟩ := perform_assign_eq hs x v
  · simp only [hnone]
    exact ⟨trivial, hp⟩
  · simp only [hsome, hp, true_and]
    split
    · rfl
    · have hr := h.ordered.records_assign hs hj hx v
      exact ⟨_, rfl, hr, h.find_of_assigned hr⟩

theorem names_prefix (more : List (Nat × Operation)) (j : Nat) :
    t.names j <+: (t.run more).2.names j := by
  rw [h.names, (h.run more).2.names]
  exact L.names_run j more

end Refines

/-- **A tree of frames is a store.** After any operations on a growing tree, all answers were those of the
ledger, and each frame holds the names that were declared in it, in their order, each once and for good. A
name means the variable of the nearest frame that declared it, with its latest value. A declaration fails
just for a name of the same frame, and an assignment just for a name that means nothing or a variable that
is immutable; then the tree stays. Else one variable gets the value, and all others stay. -/
theorem run_refines (ops : List (Nat × Operation)) :
    let t := ((root .empty).run ops).2
    let L := (Ledger.start.run ops).2
    ((root .empty).run ops).1 = (Ledger.start.run ops).1 ∧ t.Refines L ∧
    (∀ more j, t.names j <+: (t.run more).2.names j) ∧
    (∀ i x,
      match t.find i x with
      | none => ∀ j ∈ L.chain i, x ∉ L.names j
      | some (j, v) => L.nearest? i x = some j ∧ L.latest? j x = some v) ∧
    ∀ i < t.frames.length, ∀ x v,
      (if x ∈ t.names i then t.perform i (.declare x v) = (.fault (.redeclared x), t)
        else ∃ t', t.perform i (.declare x v) = (.done, t') ∧ t.Records ⟨i, x, v, true⟩ t' ∧
          t'.find i x = some (i, v)) ∧
      match t.find i x with
      | none => t.perform i (.lookup x) = (.fault (.noVariable x), t) ∧
          t.perform i (.assign x v) = (.fault (.noTarget x), t)
      | some (j, w) => t.perform i (.lookup x) = (.value w, t) ∧
          if w.immutable then t.perform i (.assign x v) = (.fault (.immutable x), t)
          else ∃ t', t.perform i (.assign x v) = (.done, t') ∧ t.Records ⟨j, x, v, false⟩ t' ∧
            ∀ k y, t'.find k y = if y = x ∧ L.nearest? k x = some j then some (j, v) else t.find k y := by
  intro t L
  obtain ⟨hanswers, h⟩ : ((root .empty).run ops).1 = (Ledger.start.run ops).1 ∧ t.Refines L :=
    Refines.start.run ops
  exact ⟨hanswers, h, h.names_prefix, h.find_spec,
    fun i hi x v => ⟨h.declare_spec hi x v, h.assign_spec hi x v⟩⟩

example : ((root .empty).run [(0, .declare "x" (.int 1)), (0, .child), (1, .assign "x" (.int 2)),
    (1, .declare "x" (.int 3)), (1, .lookup "x"), (0, .find "x")]).1 =
    [.done, .frame 1, .done, .done, .value (.int 3), .found (some (0, .int 2))] := rfl

-- the outermost frame of a program comes of declarations
example : ((root .empty).run (Frame.library.bindings.map fun b => (0, .declare b.name b.value))).2 =
    root .library := rfl

end ScopeTree

end SmallLisp

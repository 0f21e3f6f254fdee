import SmallLisp.Scope.Tree
import SmallLisp.Proofs.Frames

/-!
# Trees and the scopes in them

A tree is ordered when each frame comes after the one around it; every tree that is made by growing
one is (`ScopeTree.Ordered.root`, `ScopeTree.Ordered.child`, `ScopeTree.Ordered.restore`). The scope of
a frame is then a path without repetition, so giving the scope back puts each of its frames in one
place and leaves the frames beside the path alone (`ScopeTree.Ordered.restore_getElem?`). Growing a tree
leaves the paths that were there, and puts a new frame in front of one (`ScopeTree.Ordered.path_child`).
-/

set_option autoImplicit false

namespace SmallLisp

/-- The node with another frame. -/
def TreeFrame.put (node : TreeFrame) (f : Frame) : TreeFrame := { node with frame := f }

namespace ScopeTree

/-- Each frame comes after the one around it. -/
def Ordered (t : ScopeTree) : Prop :=
  ∀ i (node : TreeFrame) p, t.frames[i]? = some node → node.parent = some p → p < i

/-- Puts frames in the places of these numbers. -/
def putAll (js : List Nat) (fs : List Frame) (nodes : List TreeFrame) : List TreeFrame :=
  (js.zip fs).foldl (fun nodes (j, f) => nodes.modify j (·.put f)) nodes

theorem restore_frames (t : ScopeTree) (i : Nat) (s : Scope) :
    (t.restore i s).frames = putAll (t.path i) s.frames t.frames := rfl

theorem putAll_cons (j : Nat) (js : List Nat) (f : Frame) (fs : List Frame)
    (nodes : List TreeFrame) :
    putAll (j :: js) (f :: fs) nodes = putAll js fs (nodes.modify j (·.put f)) := rfl

theorem putAll_getElem?_of_not_mem {i : Nat} {js : List Nat} (hi : i ∉ js) (fs : List Frame)
    (nodes : List TreeFrame) : (putAll js fs nodes)[i]? = nodes[i]? := by
  induction js generalizing fs nodes with
  | nil => rfl
  | cons j js ih =>
    cases fs with
    | nil => rfl
    | cons f fs =>
      rw [List.mem_cons, not_or] at hi
      rw [putAll_cons, ih hi.2, List.getElem?_modify_ne _ _ (Ne.symm hi.1)]

theorem putAll_getElem? {js : List Nat} (hjs : js.Nodup) {k j : Nat} {f : Frame}
    {fs : List Frame} (hj : js[k]? = some j) (hf : fs[k]? = some f) (nodes : List TreeFrame) :
    (putAll js fs nodes)[j]? = nodes[j]?.map (·.put f) := by
  induction js generalizing k fs nodes with
  | nil => cases hj
  | cons i js ih =>
    obtain ⟨hi, hjs⟩ := List.nodup_cons.1 hjs
    cases fs with
    | nil => cases hf
    | cons g fs =>
      rw [putAll_cons]
      cases k with
      | zero =>
        cases hj
        cases hf
        exact (putAll_getElem?_of_not_mem hi ..).trans (List.getElem?_modify_eq ..)
      | succ k =>
        have hne : i ≠ j := by
          rintro rfl
          exact hi (List.mem_of_getElem? hj)
        rw [ih hjs hj hf, List.getElem?_modify_ne _ _ hne]

theorem putAll_length (js : List Nat) (fs : List Frame) (nodes : List TreeFrame) :
    (putAll js fs nodes).length = nodes.length := by
  induction js generalizing fs nodes with
  | nil => rfl
  | cons j js ih =>
    cases fs with
    | nil => rfl
    | cons f fs => rw [putAll_cons, ih, List.length_modify]

/-- Putting frames in places does not move any. -/
theorem putAll_parent (js : List Nat) (fs : List Frame) (nodes : List TreeFrame) (i : Nat) :
    (putAll js fs nodes)[i]?.map (·.parent) = nodes[i]?.map (·.parent) := by
  induction js generalizing fs nodes with
  | nil => rfl
  | cons j js ih =>
    cases fs with
    | nil => rfl
    | cons f fs =>
      rw [putAll_cons, ih, List.getElem?_modify]
      split <;> cases nodes[i]? <;> rfl

/-! ## Paths -/

section
variable {t : ScopeTree}

theorem lt_length_of_mem_pathWithin {steps i j : Nat} (h : j ∈ t.pathWithin steps i) :
    j < t.frames.length := by
  induction steps generalizing i with
  | zero => cases h
  | succ steps ih =>
    rw [pathWithin] at h
    cases hi : t.frames[i]? with
    | none =>
      rw [hi] at h
      cases h
    | some node =>
      rw [hi] at h
      rcases List.mem_cons.1 h with rfl | h
      · exact (List.getElem?_eq_some_iff.1 hi).1
      · cases hp : node.parent with
        | none =>
          rw [hp] at h
          cases h
        | some p =>
          rw [hp] at h
          exact ih h

namespace Ordered

variable (ht : t.Ordered)
include ht

theorem le_of_mem_pathWithin {steps i j : Nat} (h : j ∈ t.pathWithin steps i) : j ≤ i := by
  induction steps generalizing i with
  | zero => cases h
  | succ steps ih =>
    rw [pathWithin] at h
    cases hi : t.frames[i]? with
    | none =>
      rw [hi] at h
      cases h
    | some node =>
      rw [hi] at h
      rcases List.mem_cons.1 h with rfl | h
      · exact Nat.le_refl _
      · cases hp : node.parent with
        | none =>
          rw [hp] at h
          cases h
        | some p =>
          rw [hp] at h
          exact Nat.le_trans (ih h) (Nat.le_of_lt (ht i node p hi hp))

theorem pathWithin_nodup (steps i : Nat) : (t.pathWithin steps i).Nodup := by
  induction steps generalizing i with
  | zero => exact .nil
  | succ steps ih =>
    rw [pathWithin]
    cases hi : t.frames[i]? with
    | none => exact .nil
    | some node =>
      show (i :: (node.parent.map (t.pathWithin steps)).getD []).Nodup
      cases hp : node.parent with
      | none => exact List.nodup_cons.2 ⟨List.not_mem_nil, List.nodup_nil⟩
      | some p =>
        refine List.nodup_cons.2 ⟨fun h => ?_, ih p⟩
        have hle : i ≤ p := le_of_mem_pathWithin ht h
        have hlt : p < i := ht i node p hi hp
        omega

end Ordered

/-- The frames of a scope are those along the path. -/
theorem frames_of_scope? {i : Nat} {s : Scope} (h : t.scope? i = some s) :
    s.frames = (t.path i).filterMap fun j => t.frames[j]?.map (·.frame) := by
  rw [scope?] at h
  split at h
  · cases h
  · rename_i hp
    cases h
    exact hp.symm

theorem filterMap_getElem? {js : List Nat} (hjs : ∀ j ∈ js, j < t.frames.length) (k : Nat) :
    (js.filterMap fun j => t.frames[j]?.map (·.frame))[k]? =
      js[k]?.bind fun j => t.frames[j]?.map (·.frame) := by
  induction js generalizing k with
  | nil => rfl
  | cons j js ih =>
    have hj := List.getElem?_eq_getElem (hjs j List.mem_cons_self)
    rw [List.filterMap_cons, hj]
    cases k with
    | zero => simp [hj]
    | succ k => simpa using ih (fun j hj => hjs j (List.mem_cons_of_mem _ hj)) k

/-- Each frame of a scope is the frame in its place along the path. -/
theorem scope?_getElem? {i : Nat} {s : Scope} (h : t.scope? i = some s) (k : Nat) :
    s.frames[k]? = (t.path i)[k]?.bind fun j => t.frames[j]?.map (·.frame) := by
  rw [frames_of_scope? h]
  exact filterMap_getElem? (fun j hj => lt_length_of_mem_pathWithin hj) k

theorem path_head {i : Nat} {s : Scope} (h : t.scope? i = some s) : (t.path i)[0]? = some i := by
  have h0 := scope?_getElem? h 0
  rw [path] at h0 ⊢
  cases hn : t.frames.length with
  | zero =>
    rw [hn, pathWithin] at h0
    cases h0
  | succ steps =>
    rw [hn, pathWithin] at h0
    rw [pathWithin]
    cases hi : t.frames[i]? with
    | none =>
      rw [hi] at h0
      cases h0
    | some node => rfl

/-- What giving back a scope does to a frame: its place along the path, if it has one, says which. -/
theorem Ordered.restore_getElem? (ht : t.Ordered) {i : Nat} {s s' : Scope}
    (h : t.scope? i = some s) (hlen : s'.frames.length = s.frames.length) {j : Nat}
    {node : TreeFrame} (hj : t.frames[j]? = some node) :
    (t.restore i s').frames[j]? = some node ∧ j ≠ i ∨
      ∃ k f, s.frames[k]? = some node.frame ∧ s'.frames[k]? = some f ∧ (k = 0 ↔ j = i) ∧
        (t.restore i s').frames[j]? = some (node.put f) := by
  have hnodup : (t.path i).Nodup := ht.pathWithin_nodup _ _
  rw [restore_frames]
  by_cases hmem : j ∈ t.path i
  · obtain ⟨k, hk⟩ := List.getElem?_of_mem hmem
    have hs : s.frames[k]? = some node.frame := by
      rw [scope?_getElem? h, hk, Option.bind_some, hj, Option.map_some]
    have hlt : k < s'.frames.length := by
      rw [hlen]
      exact (List.getElem?_eq_some_iff.1 hs).1
    have hs' := List.getElem?_eq_getElem hlt
    refine .inr ⟨k, _, hs, hs', ⟨?_, ?_⟩, ?_⟩
    · rintro rfl
      rw [path_head h] at hk
      exact (Option.some.inj hk).symm
    · rintro rfl
      have hpath := (List.getElem?_eq_some_iff.1 hk).1
      exact (List.getElem?_inj hpath hnodup).1 (hk.trans (path_head h).symm)
    · rw [putAll_getElem? hnodup hk hs', hj, Option.map_some]
  · refine .inl ⟨by rw [putAll_getElem?_of_not_mem hmem, hj], ?_⟩
    rintro rfl
    exact hmem (List.mem_of_getElem? (path_head h))

end

/-! ## Growing trees are ordered -/

theorem Ordered.root (f : Frame) : (ScopeTree.root f).Ordered := by
  intro i node p hi hp
  obtain ⟨h, rfl⟩ := List.getElem?_eq_some_iff.1 hi
  obtain rfl : i = 0 := by simpa [ScopeTree.root] using h
  cases hp

theorem Ordered.child {t : ScopeTree} (ht : t.Ordered) {i : Nat} (hi : i < t.frames.length) :
    (t.child i).Ordered := by
  intro j node p hj hp
  rw [ScopeTree.child, List.getElem?_append] at hj
  split at hj
  · exact ht j node p hj hp
  · obtain ⟨h, rfl⟩ := List.getElem?_eq_some_iff.1 hj
    rw [List.getElem_singleton] at hp
    cases hp
    omega

theorem Ordered.restore {t : ScopeTree} (ht : t.Ordered) (i : Nat) (s : Scope) :
    (t.restore i s).Ordered := by
  intro j node p hj hp
  have hparent := putAll_parent (t.path i) s.frames t.frames j
  rw [restore_frames] at hj
  rw [hj] at hparent
  cases hnode : t.frames[j]? with
  | none =>
    rw [hnode] at hparent
    cases hparent
  | some old =>
    rw [hnode] at hparent
    have hold : node.parent = old.parent := Option.some.inj hparent
    exact ht j old p hnode (hold ▸ hp)

/-! ## Paths in a changed tree -/

section
variable {t : ScopeTree}

/-- A path depends on what is around each frame only. -/
theorem path_congr {t' : ScopeTree} (hlen : t'.frames.length = t.frames.length)
    (h : ∀ j : Nat, t'.frames[j]?.map (·.parent) = t.frames[j]?.map (·.parent)) (i : Nat) :
    t'.path i = t.path i := by
  have hwithin (steps i : Nat) : t'.pathWithin steps i = t.pathWithin steps i := by
    induction steps generalizing i with
    | zero => rfl
    | succ steps ih =>
      have hi := h i
      rw [pathWithin, pathWithin]
      cases hnode : t.frames[i]? with
      | none =>
        rw [hnode, Option.map_none, Option.map_eq_none_iff] at hi
        rw [hi]
      | some node =>
        rw [hnode, Option.map_some] at hi
        obtain ⟨node', hnode', hparent⟩ := Option.map_eq_some_iff.1 hi
        simp only [hnode', hparent, funext ih]
  rw [path, path, hlen, hwithin]

theorem path_of_length_le {i : Nat} (h : t.frames.length ≤ i) : t.path i = [] := by
  rw [path]
  cases hn : t.frames.length with
  | zero => rfl
  | succ steps => rw [pathWithin, List.getElem?_eq_none h]

theorem exists_path_cons {i : Nat} (h : i < t.frames.length) : ∃ around, t.path i = i :: around := by
  rw [path]
  cases hn : t.frames.length with
  | zero => omega
  | succ steps =>
    rw [pathWithin, List.getElem?_eq_getElem h]
    exact ⟨_, rfl⟩

theorem lt_length_of_mem_path {i j : Nat} (h : j ∈ t.path i) : j < t.frames.length :=
  lt_length_of_mem_pathWithin h

/-- A frame has a scope if there is such a frame. -/
theorem exists_scope? {i : Nat} (h : i < t.frames.length) : ∃ s, t.scope? i = some s := by
  obtain ⟨around, hpath⟩ := exists_path_cons h
  rw [scope?, hpath, List.filterMap_cons, List.getElem?_eq_getElem h]
  exact ⟨_, rfl⟩

theorem scope?_eq_none {i : Nat} (h : t.frames.length ≤ i) : t.scope? i = none := by
  rw [scope?, path_of_length_le h]
  rfl

theorem path_restore (t : ScopeTree) (i : Nat) (s : Scope) (j : Nat) : (t.restore i s).path j = t.path j :=
  path_congr (putAll_length ..) (fun j => putAll_parent _ _ _ j) j

theorem child_getElem? (t : ScopeTree) (i j : Nat) : (t.child i).frames[j]? =
    if j = t.frames.length then some ⟨.empty, some i⟩ else t.frames[j]? := by
  rw [child]
  grind

namespace Ordered

variable (ht : t.Ordered)
include ht

/-- More steps than frames do not lead further. -/
theorem pathWithin_eq {steps steps' i : Nat} (h : i < steps) (h' : i < steps') :
    t.pathWithin steps i = t.pathWithin steps' i := by
  induction steps generalizing i steps' with
  | zero => omega
  | succ steps ih =>
    obtain ⟨steps', rfl⟩ : ∃ n, steps' = n + 1 := ⟨steps' - 1, by omega⟩
    rw [pathWithin, pathWithin]
    cases hi : t.frames[i]? with
    | none => rfl
    | some node =>
      cases hp : node.parent with
      | none => simp [hp]
      | some p =>
        have hlt := ht i node p hi hp
        simp only [hp, Option.map_some, Option.getD_some]
        rw [ih (by omega) (by omega : p < steps')]

theorem path_child_of_lt {i j : Nat} (hj : j < t.frames.length) : (t.child i).path j = t.path j := by
  have hwithin (steps : Nat) {j : Nat} (hj : j < t.frames.length) :
      (t.child i).pathWithin steps j = t.pathWithin steps j := by
    induction steps generalizing j with
    | zero => rfl
    | succ steps ih =>
      rw [pathWithin, pathWithin, ScopeTree.child, List.getElem?_append_left hj]
      cases hnode : t.frames[j]? with
      | none => rfl
      | some node =>
        cases hp : node.parent with
        | none => simp [hp]
        | some p =>
          have hlt := ht j node p hnode hp
          have := ih (j := p) (by omega)
          simp only [hp, Option.map_some, Option.getD_some]
          rw [← this, ScopeTree.child]
  have hlen : (t.child i).frames.length = t.frames.length + 1 := by simp [ScopeTree.child]
  rw [path, hwithin _ hj, hlen]
  exact ht.pathWithin_eq (by omega) hj

/-- The path of a new frame goes on with that of the frame around it. -/
theorem path_child {i : Nat} (hi : i < t.frames.length) :
    (t.child i).path t.frames.length = t.frames.length :: t.path i := by
  have hnew : (t.child i).frames[t.frames.length]? = some ⟨.empty, some i⟩ := by simp [ScopeTree.child]
  have hlen : (t.child i).frames.length = t.frames.length + 1 := by simp [ScopeTree.child]
  rw [path, hlen, pathWithin, hnew]
  have hpath := path_child_of_lt ht (i := i) hi
  rw [path, hlen] at hpath
  simp only [Option.map_some, Option.getD_some]
  rw [← hpath]
  congr 1
  exact (ht.child hi).pathWithin_eq hi (by omega)

/-- A change of one frame of a scope is a change of its place in the tree. -/
theorem restore_modify {i k j : Nat} {s : Scope} (h : t.scope? i = some s)
    (hk : (t.path i)[k]? = some j) (c : Frame → Frame) :
    (t.restore i (s.modify k c)).frames = t.frames.modify j fun node => node.put (c node.frame) := by
  have hnodup : (t.path i).Nodup := ht.pathWithin_nodup _ _
  have hlt := (List.getElem?_eq_some_iff.1 hk).1
  refine List.ext_getElem? fun n => ?_
  rw [restore_frames, List.getElem?_modify]
  by_cases hmem : n ∈ t.path i
  · obtain ⟨k', hk'⟩ := List.getElem?_of_mem hmem
    obtain ⟨node, hnode⟩ : ∃ node, t.frames[n]? = some node :=
      ⟨_, List.getElem?_eq_getElem (lt_length_of_mem_path hmem)⟩
    have hs : s.frames[k']? = some node.frame := by
      rw [scope?_getElem? h, hk', Option.bind_some, hnode, Option.map_some]
    have hs' : (s.modify k c).frames[k']? = some (if k = k' then c node.frame else node.frame) := by
      rw [Scope.frames_modify, List.getElem?_modify, hs]
      split <;> rfl
    rw [putAll_getElem? hnodup hk' hs', hnode]
    have hplace : k = k' ↔ j = n := by
      refine ⟨fun hkk => ?_, fun hjn => ?_⟩
      · rw [hkk, hk'] at hk
        exact (Option.some.inj hk).symm
      · exact (List.getElem?_inj hlt hnodup).1 (hk.trans (hjn ▸ hk'.symm))
    by_cases hjn : j = n
    · simp [hjn, hplace.2 hjn]
    · simp [hjn, mt hplace.1 hjn, TreeFrame.put]
  · have hjn : j ≠ n := by
      rintro rfl
      exact hmem (List.mem_of_getElem? hk)
    rw [putAll_getElem?_of_not_mem hmem]
    simp [hjn]

end Ordered

end

end ScopeTree

end SmallLisp

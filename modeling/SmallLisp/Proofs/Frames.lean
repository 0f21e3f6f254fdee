import SmallLisp.Scope

/-!
# Frames and how they evolve

`Scope.valueAt` reads a variable of a frame by how far out the frame is, and says what every
operation on scopes does. `Scope.Evolves` is what evaluation may do to the frames around it: add
names to the innermost of them only, lose none, keep what is immutable, and leave a variable alone
as long as a frame further in hides it.
-/

set_option autoImplicit false

namespace SmallLisp

namespace Frame

@[simp] theorem get?_empty (x : String) : empty.get? x = none := rfl

@[simp] theorem names_empty : empty.names = [] := rfl

theorem get?_isSome_iff {f : Frame} {x : String} : (f.get? x).isSome ↔ x ∈ f.names := by
  simp only [get?, Option.isSome_map, List.find?_isSome, names, List.mem_map, beq_iff_eq]

@[simp] theorem names_bind (f : Frame) (x : String) (v : Value) :
    (f.bind x v).names = f.names ++ [x] := by
  simp [names, bind]

@[simp] theorem names_set (f : Frame) (x : String) (v : Value) : (f.set x v).names = f.names := by
  simp only [names, set, List.map_map]
  refine List.map_congr_left fun b _ => ?_
  simp only [Function.comp]
  split <;> rfl

theorem get?_cons (b : Binding) (bs : List Binding) (x : String) :
    (⟨b :: bs⟩ : Frame).get? x = if b.name = x then some b.value else (⟨bs⟩ : Frame).get? x := by
  by_cases h : b.name = x <;> simp [get?, h]

theorem get?_bind (f : Frame) (x y : String) (v : Value) :
    (f.bind x v).get? y = (f.get? y).or (if x = y then some v else none) := by
  rw [get?, bind, List.find?_append, get?]
  cases f.bindings.find? (·.name == y) with
  | some b => rfl
  | none => exact get?_cons ⟨x, v⟩ [] y

theorem get?_set (f : Frame) (x y : String) (v : Value) :
    (f.set x v).get? y = if x = y then (f.get? y).map fun _ => v else f.get? y := by
  obtain ⟨bs⟩ := f
  induction bs with
  | nil => simp [set, get?]
  | cons b bs ih =>
    rw [set] at ih ⊢
    rw [List.map_cons, get?_cons, get?_cons, ih]
    by_cases hb : b.name = x
    · subst hb
      by_cases hy : b.name = y <;> simp [hy]
    · by_cases hx : x = y
      · subst hx
        simp [hb]
      · simp [hb, hx]

end Frame

namespace Scope

/-! ## Variables by the place of their frame -/

/-- The value of a variable of the frame so far out; none if the frame does not hold it. -/
def valueAt (fs : List Frame) (k : Nat) (x : String) : Option Value := fs[k]?.bind (·.get? x)

section
variable {fs : List Frame} {k : Nat} {x : String} {v : Value}

@[simp] theorem valueAt_zero (f : Frame) (fs : List Frame) (x : String) :
    valueAt (f :: fs) 0 x = f.get? x := rfl

@[simp] theorem valueAt_succ (f : Frame) (fs : List Frame) (k : Nat) (x : String) :
    valueAt (f :: fs) (k + 1) x = valueAt fs k x := rfl

theorem valueAt_drop (fs : List Frame) (i k : Nat) (x : String) :
    valueAt (fs.drop k) i x = valueAt fs (k + i) x := by
  rw [valueAt, List.getElem?_drop, valueAt]

theorem valueAt_tail (fs : List Frame) (k : Nat) (x : String) :
    valueAt fs.tail k x = valueAt fs (k + 1) x := by
  cases fs <;> rfl

theorem valueAt_modify (fs : List Frame) (i k : Nat) (c : Frame → Frame) (x : String) :
    valueAt (fs.modify k c) i x =
      if k = i then fs[i]?.bind fun f => (c f).get? x else valueAt fs i x := by
  simp only [valueAt, List.getElem?_modify]
  split <;> cases fs[i]? <;> rfl

theorem valueAt_bind (fs : List Frame) (i k : Nat) (x y : String) (v : Value) :
    valueAt (fs.modify k (·.bind x v)) i y =
      (valueAt fs i y).or (if k = i ∧ x = y ∧ k < fs.length then some v else none) := by
  rw [valueAt_modify]
  by_cases hk : k = i
  · subst hk
    rw [valueAt]
    by_cases hlt : k < fs.length <;> simp [Frame.get?_bind, hlt]
  · simp [hk]

theorem valueAt_set (fs : List Frame) (i k : Nat) (x y : String) (v : Value) :
    valueAt (fs.modify k (·.set x v)) i y =
      if k = i ∧ x = y then (valueAt fs i y).map fun _ => v else valueAt fs i y := by
  rw [valueAt_modify]
  by_cases hk : k = i
  · subst hk
    rw [valueAt]
    cases fs[k]? with
    | none => simp
    | some f => simp [Frame.get?_set]
  · simp [hk]

/-- The nearest frame that holds a name holds it, and none further in does. -/
theorem findIn_eq_some_iff : findIn x fs = some (k, v) ↔
    valueAt fs k x = some v ∧ ∀ i < k, valueAt fs i x = none := by
  induction fs generalizing k with
  | nil => simp [findIn, valueAt]
  | cons f fs ih =>
    rw [findIn]
    cases hf : f.get? x with
    | some w =>
      simp only [Option.some.injEq, Prod.mk.injEq]
      constructor
      · rintro ⟨rfl, rfl⟩
        exact ⟨hf, by simp⟩
      · rintro ⟨hk, hi⟩
        cases k with
        | zero => exact ⟨rfl, by simpa [hf] using hk⟩
        | succ k => simpa [hf] using hi 0 (Nat.succ_pos k)
    | none =>
      cases k with
      | zero => simp [hf]
      | succ k =>
        have hfurther : (∀ i < k + 1, valueAt (f :: fs) i x = none) ↔
            ∀ i < k, valueAt fs i x = none := by
          refine ⟨fun h i hi => h (i + 1) (by omega), fun h i hi => ?_⟩
          cases i with
          | zero => exact hf
          | succ i => exact h i (by omega)
        rw [valueAt_succ, hfurther, ← ih]
        rcases findIn x fs with _ | ⟨hops, w⟩ <;> simp

theorem findIn_eq_none_iff : findIn x fs = none ↔ ∀ i, valueAt fs i x = none := by
  induction fs with
  | nil => simp [findIn, valueAt]
  | cons f fs ih =>
    rw [findIn]
    cases hf : f.get? x with
    | some w => simpa using ⟨0, by simp [hf]⟩
    | none =>
      simp only [Option.map_eq_none_iff, ih]
      exact ⟨fun h i => by cases i <;> simp [hf, h], fun h i => h (i + 1)⟩

/-- Frames that hold the same under a name are told apart by nothing that looks for it. -/
theorem findIn_congr {gs : List Frame} (h : ∀ i, valueAt gs i x = valueAt fs i x) :
    findIn x gs = findIn x fs :=
  Option.ext fun ⟨k, v⟩ => by simp only [findIn_eq_some_iff, h]

end

/-- The value that a name stands for; none if it is not bound. -/
def value? (s : Scope) (x : String) : Option Value := (s.find? x).map Prod.snd

theorem lookup_eq (s : Scope) (x : String) : s.lookup x =
    match s.value? x with
    | some v => .ok v
    | none => .error (.noVariable x) := by
  rw [lookup, value?]
  cases s.find? x <;> rfl

/-! ## Operations -/

section
variable (s : Scope) (hops : Nat) (x : String) (v : Value)

@[simp] theorem frames_child : s.child.frames = .empty :: s.frames := rfl

@[simp] theorem frames_modify (c : Frame → Frame) :
    (s.modify hops c).frames = s.frames.modify hops c := by
  cases hops <;> rfl

@[simp] theorem frames_write : (s.write hops x v).frames = s.frames.modify hops (·.set x v) :=
  frames_modify ..

theorem frames_enclosing (h : s.outer ≠ []) : s.enclosing.frames = s.outer := by
  rw [enclosing]
  split
  · contradiction
  · simp_all [frames]

theorem frames_enclosing_cases :
    s.enclosing.frames = s.frames ∨ s.outer ≠ [] ∧ s.enclosing.frames = s.outer := by
  by_cases h : s.outer = []
  · left
    rw [enclosing, h]
  · exact .inr ⟨h, frames_enclosing s h⟩

theorem valueAt_one_add (k : Nat) : valueAt s.frames (1 + k) x = valueAt s.outer k x := by
  rw [Nat.add_comm]
  rfl

/-- What the frames around the innermost one hold, they hold when that one has been left. -/
theorem valueAt_enclosing {s : Scope} {k : Nat} {x : String} {v : Value}
    (h : valueAt s.frames (k + 1) x = some v) : valueAt s.enclosing.frames k x = some v := by
  have houter : s.outer ≠ [] := by
    intro hs
    rw [frames, hs] at h
    cases h
  rw [frames_enclosing s houter]
  exact h

theorem home_le_one : s.home ≤ 1 := by
  rw [home]
  split <;> omega

theorem home_lt_length : s.home < s.frames.length := by
  rw [home, frames]
  cases s.outer <;> simp

theorem declare_eq (s : Scope) (hops : Nat) (x : String) (v : Value) :
    s.declare hops x v = if (valueAt s.frames hops x).isSome then .error (.redeclared x)
      else .ok (s.modify hops (·.bind x v)) := by
  have : s.frames[hops]?.any (·.holds x) = (valueAt s.frames hops x).isSome := by
    rw [valueAt]
    cases s.frames[hops]? <;> rfl
  rw [declare, this]

/-- An assignment is for a variable that is mutable, of the nearest frame from some frame on. -/
theorem assignable_eq_ok_iff {k : Nat} : s.assignable hops x = .ok k ↔
    hops ≤ k ∧ (∃ w, valueAt s.frames k x = some w ∧ w.immutable = false) ∧
      ∀ i, hops ≤ i → i < k → valueAt s.frames i x = none := by
  rw [assignable]
  cases hf : findIn x (s.frames.drop hops) with
  | none =>
    rw [findIn_eq_none_iff] at hf
    simp only [reduceCtorEq, false_iff]
    rintro ⟨hk, ⟨w, hw, -⟩, -⟩
    have := hf (k - hops)
    rw [valueAt_drop, Nat.add_sub_cancel' hk, hw] at this
    cases this
  | some p =>
    obtain ⟨further, w⟩ := p
    obtain ⟨hw, hi⟩ := findIn_eq_some_iff.1 hf
    rw [valueAt_drop] at hw
    have hnone : ∀ i, hops ≤ i → i < hops + further → valueAt s.frames i x = none := by
      intro i h1 h2
      have := hi (i - hops) (by omega)
      rwa [valueAt_drop, Nat.add_sub_cancel' h1] at this
    constructor
    · intro h
      simp only at h
      split at h
      · cases h
      · cases h
        exact ⟨by omega, ⟨w, hw, by simp_all⟩, hnone⟩
    · rintro ⟨hk, ⟨w', hw', himm⟩, hn⟩
      obtain rfl : k = hops + further := by
        rcases Nat.lt_trichotomy k (hops + further) with h | h | h
        · rw [hnone k hk h] at hw'
          cases hw'
        · exact h
        · rw [hn _ (by omega) h] at hw
          cases hw
      rw [hw] at hw'
      cases hw'
      simp [himm]

end

/-- What an assignment comes to is decided by what the name means. -/
theorem assign_eq (s : Scope) (x : String) (v : Value) : s.assign x v =
    match s.find? x with
    | none => .error (.noTarget x)
    | some (hops, w) => if w.immutable then .error (.immutable x) else .ok (s.write hops x v) := by
  rw [assign, assignable, List.drop_zero, find?]
  cases findIn x s.frames with
  | none => rfl
  | some p =>
    obtain ⟨hops, w⟩ := p
    simp only [Nat.zero_add]
    split <;> rfl

/-! ## Evolution -/

/-- How many frames are around the frame so far out. -/
def depthAt (fs : List Frame) (k : Nat) : Nat := fs.length - (k + 1)

/-- Every variable of every frame. -/
def anyVariable : Nat → String → Prop := fun _ _ => True

/-- What evaluation may do to some frames: only the so many innermost ones get new names, no name is
lost, and a variable whose value changes was mutable, not hidden by a frame further in, and among
those that may be written. These are given by the depth of their frame. The innermost frame may fail
to hide one name, the one exposed. -/
structure Evolves (reach : Nat) (exposed : Option String) (writable : Nat → String → Prop)
    (fs gs : List Frame) : Prop where
  length : gs.length = fs.length
  names : ∀ k, reach ≤ k → gs[k]?.map Frame.names = fs[k]?.map Frame.names
  bound : ∀ k x, (valueAt fs k x).isSome → (valueAt gs k x).isSome
  value : ∀ k x v, valueAt fs k x = some v → valueAt gs k x = some v ∨
    v.immutable = false ∧ (∀ i < k, (i = 0 → exposed ≠ some x) → valueAt fs i x = none) ∧
      writable (depthAt fs k) x

namespace Evolves

variable {n n' : Nat} {E : Option String} {W W' : Nat → String → Prop} {f : Frame}
  {fs gs hs : List Frame}

theorem refl (n : Nat) (E : Option String) (W : Nat → String → Prop) (fs : List Frame) :
    Evolves n E W fs fs :=
  ⟨rfl, fun _ _ => rfl, fun _ _ h => h, fun _ _ _ h => .inl h⟩

theorem trans (h : Evolves n E W fs gs) (h' : Evolves n E W gs hs) : Evolves n E W fs hs where
  length := h'.length.trans h.length
  names k hk := (h'.names k hk).trans (h.names k hk)
  bound k x hx := h'.bound k x (h.bound k x hx)
  value k x v hx := by
    rcases h.value k x v hx with hg | hg
    · rcases h'.value k x v hg with hh | ⟨himm, hnone, hw⟩
      · exact .inl hh
      · refine .inr ⟨himm, fun i hi hE => ?_, ?_⟩
        · have := mt (h.bound i x)
          simp_all
        · rwa [depthAt, h.length] at hw
    · exact .inr hg

theorem mono (h : Evolves n E W fs gs) (hn : n ≤ n') : Evolves n' E W fs gs :=
  { h with names := fun k hk => h.names k (Nat.le_trans hn hk) }

theorem expose (h : Evolves n none W fs gs) : Evolves n E W fs gs :=
  { h with value := fun k x v hx => (h.value k x v hx).imp_right fun ⟨himm, hnone, hw⟩ =>
      ⟨himm, fun i hi _ => hnone i hi (by simp), hw⟩ }

/-- There are no names to be had beyond the outermost frame. -/
theorem saturate (h : Evolves n E W fs gs) : Evolves fs.length E W fs gs := by
  refine { h with names := fun k hk => ?_ }
  rw [List.getElem?_eq_none hk, List.getElem?_eq_none (by rwa [h.length])]

/-- An immutable value stays. -/
theorem frozen (h : Evolves n E W fs gs) {k : Nat} {x : String} {v : Value}
    (hx : valueAt fs k x = some v) (hv : v.immutable = true) : valueAt gs k x = some v := by
  rcases h.value k x v hx with hg | ⟨himm, -⟩
  · exact hg
  · rw [hv] at himm
    cases himm

/-- A variable stays as it is as long as a frame further in holds its name. -/
theorem hidden (h : Evolves n E W fs gs) {i k : Nat} {x : String} {v : Value} (hi : i < k)
    (hE : i = 0 → E ≠ some x) (hix : (valueAt fs i x).isSome) (hx : valueAt fs k x = some v) :
    valueAt gs k x = some v := by
  rcases h.value k x v hx with hg | ⟨-, hnone, -⟩
  · exact hg
  · rw [hnone i hi hE] at hix
    cases hix

/-- What may not be written stays. -/
theorem kept (h : Evolves n E W fs gs) {k : Nat} {x : String} {v : Value}
    (hx : valueAt fs k x = some v) (hW : ¬ W (depthAt fs k) x) : valueAt gs k x = some v :=
  (h.value k x v hx).resolve_right fun ⟨_, _, hw⟩ => hW hw

/-- A new variable. -/
theorem bind (h : Evolves n E W fs gs) {k : Nat} (hk : k < n) (x : String) (v : Value) :
    Evolves n E W fs (gs.modify k (·.bind x v)) := by
  refine h.trans ⟨by simp, fun i hi => ?_, fun i y hy => ?_, fun i y w hy => .inl ?_⟩
  · rw [List.getElem?_modify_ne]
    omega
  · rw [valueAt_bind]
    simp [hy]
  · rw [valueAt_bind, hy, Option.some_or]

/-- A write of a variable that is new, or else mutable, not hidden and writable. -/
theorem set (h : Evolves n E W fs gs) {k : Nat} {x : String} (w : Value)
    (hx : ∀ v, valueAt fs k x = some v → v.immutable = false ∧
      (∀ i < k, (i = 0 → E ≠ some x) → valueAt fs i x = none) ∧ W (depthAt fs k) x) :
    Evolves n E W fs (gs.modify k (·.set x w)) where
  length := by rw [List.length_modify, h.length]
  names i hi := by
    rw [← h.names i hi, List.getElem?_modify]
    split <;> cases gs[i]? <;> simp
  bound i y hy := by
    rw [valueAt_set]
    split
    · rw [Option.isSome_map]
      exact h.bound i y hy
    · exact h.bound i y hy
  value i y v hy := by
    rw [valueAt_set]
    split
    · rename_i hki
      obtain ⟨rfl, rfl⟩ := hki
      exact .inr (hx v hy)
    · exact h.value i y v hy

/-- What is left of an evolution without the innermost frame. -/
theorem leave (h : Evolves (n + 1) E W (f :: fs) gs) : Evolves n none W fs gs.tail where
  length := by rw [List.length_tail, h.length, List.length_cons, Nat.add_sub_cancel]
  names k hk := by rw [List.getElem?_tail, h.names (k + 1) (by omega), List.getElem?_cons_succ]
  bound k x hx := by
    rw [valueAt_tail]
    exact h.bound (k + 1) x hx
  value k x v hx := by
    rw [valueAt_tail]
    refine (h.value (k + 1) x v hx).imp_right fun ⟨himm, hnone, hw⟩ => ⟨himm, fun i hi _ => ?_, ?_⟩
    · exact hnone (i + 1) (by omega) (by simp)
    · rwa [depthAt, List.length_cons, Nat.add_sub_add_right] at hw

theorem drop (h : Evolves n none W fs gs) (j : Nat) :
    Evolves (n - j) none W (fs.drop j) (gs.drop j) where
  length := by rw [List.length_drop, List.length_drop, h.length]
  names k hk := by
    rw [List.getElem?_drop, List.getElem?_drop]
    exact h.names (j + k) (by omega)
  bound k x hx := by
    rw [valueAt_drop] at hx ⊢
    exact h.bound (j + k) x hx
  value k x v hx := by
    rw [valueAt_drop] at hx ⊢
    refine (h.value (j + k) x v hx).imp_right fun ⟨himm, hnone, hw⟩ =>
      ⟨himm, fun i hi _ => ?_, ?_⟩
    · rw [valueAt_drop]
      exact hnone (j + i) (by omega) (by simp)
    · rwa [depthAt, List.length_drop, Nat.sub_sub, ← Nat.add_assoc]

end Evolves

end Scope

end SmallLisp

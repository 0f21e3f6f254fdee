import SmallLisp.Proofs.Held

/-!
# The library stays whole

The outermost frame begins with the library: nothing takes the names there out or puts others between
them, and what they stand for is marked and stays. No other value is ever marked, wherever it is held,
handed on or comes out. Main statement: `Program.library_undamaged`, over any number of programs that
are run one after another, each to its end or until it fails, and over every request in their course.
-/

set_option autoImplicit false

namespace SmallLisp

open Scope Evaluator

/-! ## Frames that hold the library -/

namespace Frame

/-- A frame begins with some variables if it begins with their names and these have the same values. -/
theorem bindings_prefix {bs : List Binding} (hnodup : (bs.map (·.name)).Nodup) {f : Frame}
    (hnames : bs.map (·.name) <+: f.names) (hvalues : ∀ b ∈ bs, f.get? b.name = some b.value) :
    bs <+: f.bindings := by
  obtain ⟨cs⟩ := f
  induction bs generalizing cs with
  | nil => exact List.nil_prefix
  | cons b bs ih =>
    obtain ⟨hnew, hnodup⟩ := List.nodup_cons.1 hnodup
    cases cs with
    | nil => cases List.prefix_nil.1 hnames
    | cons c cs =>
      obtain ⟨hname, hrest⟩ := List.cons_prefix_cons.1 hnames
      have hfirst := hvalues b List.mem_cons_self
      rw [get?_cons, if_pos hname.symm] at hfirst
      have hb : b = c := by
        cases b
        cases c
        cases hname
        cases hfirst
        rfl
      subst hb
      refine List.cons_prefix_cons.2 ⟨rfl, ih hnodup cs hrest fun d hd => ?_⟩
      have hne : b.name ≠ d.name := fun h => hnew (List.mem_map.2 ⟨d, hd, h.symm⟩)
      have hd' := hvalues d (List.mem_cons_of_mem _ hd)
      rwa [get?_cons, if_neg hne] at hd'

/-- A frame begins with the library if it begins with its names and these are its functions. -/
theorem library_prefix_iff {f : Frame} : library.bindings <+: f.bindings ↔
    library.names <+: f.names ∧ ∀ n : Native, f.get? n.name = some (.native n) := by
  constructor
  · rintro ⟨own, hown⟩
    obtain ⟨bs⟩ := f
    cases hown
    refine ⟨⟨(⟨own⟩ : Frame).names, List.map_append.symm⟩, fun n => ?_⟩
    cases n <;> rfl
  · rintro ⟨hnames, hvalues⟩
    refine bindings_prefix (by decide) hnames fun b hb => ?_
    obtain ⟨n, -, rfl⟩ := List.mem_map.1 hb
    exact hvalues n

end Frame

/-- The outermost frame begins with the names of the library. -/
def Scope.NamesLibrary (fs : List Frame) : Prop :=
  ∃ root, fs.getLast? = some root ∧ Frame.library.names <+: root.names

/-- The names of the library stand for its functions in the outermost frame. -/
def Scope.HoldsLibrary (fs : List Frame) : Prop :=
  ∀ f : Native, valueAt fs (fs.length - 1) f.name = some (.native f)

namespace Scope

variable {f : Frame} {fs gs : List Frame}

theorem NamesLibrary.cons (f : Frame) (h : NamesLibrary fs) : NamesLibrary (f :: fs) := by
  obtain ⟨root, hroot, hnames⟩ := h
  exact ⟨root, by rw [List.getLast?_cons, hroot]; rfl, hnames⟩

theorem NamesLibrary.outer (hfs : fs ≠ []) (h : NamesLibrary (f :: fs)) : NamesLibrary fs := by
  obtain ⟨root, hroot, hnames⟩ := h
  obtain ⟨g, fs, rfl⟩ := List.exists_cons_of_ne_nil hfs
  exact ⟨root, by rwa [List.getLast?_cons_cons] at hroot, hnames⟩

/-- A frame may be changed as long as its names stay in front of new ones. -/
theorem NamesLibrary.modify (k : Nat) {change : Frame → Frame}
    (hchange : ∀ f : Frame, f.names <+: (change f).names) (h : NamesLibrary fs) :
    NamesLibrary (fs.modify k change) := by
  obtain ⟨root, hroot, hnames⟩ := h
  rw [List.getLast?_eq_getElem?] at hroot
  rw [NamesLibrary, List.getLast?_eq_getElem?, List.length_modify, List.getElem?_modify, hroot]
  refine ⟨_, rfl, ?_⟩
  split
  · exact hnames.trans (hchange root)
  · exact hnames

theorem HoldsLibrary.cons (f : Frame) (h : HoldsLibrary fs) : HoldsLibrary (f :: fs) := by
  intro n
  cases fs with
  | nil => cases h n
  | cons g gs => exact h n

/-- What is marked stays. -/
theorem HoldsLibrary.evolves {k : Nat} {E : Option String} {W : Nat → String → Prop}
    (h : HoldsLibrary fs) (hev : Evolves k E W fs gs) : HoldsLibrary gs := by
  intro n
  rw [hev.length]
  exact hev.frozen (h n) rfl

theorem HoldsLibrary.asks {W : Nat → String → Prop} {q q' : Request} {n n' : Machine}
    (h : HoldsLibrary n.scope.frames) (ha : q.Asks W n q' n') : HoldsLibrary n'.scope.frames := by
  cases ha with
  | part hc hev => exact (h.evolves hev).cons .empty
  | body hn hev => exact (h.evolves hev).cons n'.scope.frame
  | call hev => exact h.evolves hev

end Scope

/-! ## Machines that nothing has damaged -/

/-- A value is marked exactly if it is a native function. -/
def Value.Marked (v : Value) : Prop := v.immutable = true ↔ v.kind = .native

/-- The outermost frame begins with the library, and the values that are marked are native functions,
whatever variable holds them, at any nesting. -/
structure Machine.Undamaged (m : Machine) : Prop where
  library : ∃ root, m.scope.frames.getLast? = some root ∧
    Frame.library.bindings <+: root.bindings
  marks : m.Holds (Value.Everywhere Value.Marked)

/-- Marked values are native functions, and the outermost frame begins with the names of the library. -/
def Conditions.marked : Conditions where
  expr _ := True
  value := Value.Marked
  frames := NamesLibrary
  fails _ := True

theorem Callable.value_marked (callee : Callable) : callee.value.Marked := by
  cases callee with
  | function params body => exact ⟨nofun, nofun⟩
  | native f => exact ⟨fun _ => rfl, fun _ => rfl⟩

theorem Conditions.marked_sound : marked.Sound where
  part _ _ _ _ := trivial
  function _ _ := ⟨fun _ => trivial, fun _ => ⟨nofun, nofun⟩⟩
  data v himm hcallable := by
    refine ⟨fun h => absurd (himm.symm.trans h) Bool.false_ne_true, fun h => ?_⟩
    cases v <;> cases h
    cases hcallable
  callable _ callee _ _ := callee.value_marked
  child _ h := h.cons .empty
  outer _ _ hne h := h.outer hne
  bind _ k x v h := h.modify k fun f => ⟨[x], (Frame.names_bind f x v).symm⟩
  set _ k x v h := h.modify k fun f => ⟨[], by rw [Frame.names_set, List.append_nil]⟩
  fault _ _ := trivial
  exhausted := trivial
  unencodable := trivial
  blame _ _ _ _ := trivial

namespace Machine

theorem undamaged_iff {m : Machine} :
    m.Undamaged ↔ Conditions.marked.MetOn m ∧ HoldsLibrary m.scope.frames := by
  have hroot (root : Frame) (h : m.scope.frames.getLast? = some root) (x : String) :
      valueAt m.scope.frames (m.scope.frames.length - 1) x = root.get? x := by
    rw [valueAt, ← List.getLast?_eq_getElem?, h]
    rfl
  constructor
  · rintro ⟨⟨root, hlast, hprefix⟩, hmarks⟩
    obtain ⟨hnames, hvalues⟩ := Frame.library_prefix_iff.1 hprefix
    refine ⟨⟨hmarks, root, hlast, hnames⟩, fun n => ?_⟩
    rw [hroot root hlast]
    exact hvalues n
  · rintro ⟨⟨hmarks, root, hlast, hnames⟩, hvalues⟩
    refine ⟨⟨root, hlast, Frame.library_prefix_iff.2 ⟨hnames, fun n => ?_⟩⟩, hmarks⟩
    rw [← hroot root hlast]
    exact hvalues n

theorem freshMachine_undamaged (input : Text) : (Program.freshMachine input).Undamaged where
  library := ⟨.library, rfl, List.prefix_rfl⟩
  marks := by
    intro f hf b hb
    rw [List.mem_singleton.1 hf] at hb
    obtain ⟨n, -, rfl⟩ := List.mem_map.1 hb
    exact .of_no_items rfl ⟨fun _ => rfl, fun _ => rfl⟩

end Machine

/-! ## Runs -/

/-- Any arguments of a request are marked exactly if they are native functions. -/
def Request.Marked (q : Request) : Prop :=
  ∀ callee args, q = .call callee args → ∀ v ∈ args, v.Everywhere Value.Marked

/-- A request and its answer by the next level leave the library and the marks whole. -/
def Evaluator.KeepsLibrary (rounds : Nat) (lower : Evaluator) (q : Request) (n : Machine) : Prop :=
  q.Marked ∧ n.Undamaged ∧ (((lower.next rounds).answer q).after n).Undamaged ∧
    ∀ v p, (lower.next rounds).answer q n = .ok v p → v.Everywhere Value.Marked

namespace Outcome.Within

variable {T : Terms} {α : Type} {P : α → Prop} {x : Eval α} {m : Machine}

theorem after (h : Outcome.Within T P (x m)) : T.machine (x.after m) := by
  rw [Eval.after]
  cases ho : x m with
  | ok a n =>
    rw [ho] at h
    exact h.2
  | error f n =>
    rw [ho] at h
    exact h.2

theorem of_ok (h : Outcome.Within T P (x m)) {a : α} {n : Machine} (ho : x m = .ok a n) : P a := by
  rw [ho] at h
  exact h.1

end Outcome.Within

namespace Evaluator

open Machine

/-- What keeps the conditions and lets frames evolve leaves an undamaged machine undamaged. -/
theorem undamaged_after {x : Eval Value} {m : Machine} (hm : m.Undamaged)
    (hwithin : Outcome.Within Conditions.marked.terms Conditions.marked.MetBy (x m)) {k : Nat}
    {E : Option String}
    (hev : Evolves k E anyVariable m.scope.frames (x.after m).scope.frames) :
    (x.after m).Undamaged :=
  undamaged_iff.2 ⟨hwithin.after, (undamaged_iff.1 hm).2.evolves hev⟩

/-- Any expression may be evaluated on an undamaged machine. -/
theorem asks_part (e : Expr) {m : Machine} (hm : Conditions.marked.MetOn m) :
    Conditions.marked.terms.asks (.part e) m.child :=
  ⟨trivial, Conditions.marked_sound.closed.child m hm⟩

theorem throughout_undamaged (rounds depth : Nat) {q : Request} {n : Machine}
    (hq : q.Meets (fun _ => True) Conditions.marked.MetBy) (hn : n.Undamaged) :
    Throughout rounds (KeepsLibrary rounds) depth q n := by
  have hlasting := Conditions.marked_sound.lasting
  refine hlasting.throughout
    (I := fun q n => q.Meets (fun _ => True) Conditions.marked.MetBy ∧ n.Undamaged)
    (fun q n h => ⟨h.1, (undamaged_iff.1 h.2).1⟩) ?_ ?_ depth ⟨hq, hn⟩
  · rintro q n t n' ⟨-, hn⟩ hasks ⟨hq', hn'⟩
    exact ⟨hq', undamaged_iff.2 ⟨hn', (undamaged_iff.1 hn).2.asks hasks⟩⟩
  · rintro depth q n ⟨hq, hn⟩
    have hwithin := hlasting.ofDepth rounds (depth + 1) hq (undamaged_iff.1 hn).1
    have hev := ofDepth_scoped rounds (depth + 1) q n
    refine ⟨?_, hn, undamaged_after hn hwithin hev, fun v p ho => hwithin.of_ok ho⟩
    rintro callee args rfl
    exact hq.2

theorem throughoutAll_undamaged (rounds depth : Nat) (es : List Expr) {m : Machine}
    (hm : m.Undamaged) : ThroughoutAll rounds (KeepsLibrary rounds) depth es m := by
  have hasks (e : Expr) (n : Machine) (hn : n.Undamaged) := asks_part e (undamaged_iff.1 hn).1
  refine .of_kept (fun e _ n hn => ?_) (fun e _ n v p hn ho => ?_) hm
  · have hchild : n.child.Undamaged :=
      undamaged_iff.2 ⟨(hasks e n hn).2, (undamaged_iff.1 hn).2.cons .empty⟩
    exact throughout_undamaged rounds depth (q := .visit e) trivial hchild
  · have hwithin := Conditions.marked_sound.lasting.evaluate rounds depth (hasks e n hn)
    have hafter := undamaged_after hn hwithin (evaluate_evolves (ofDepth_scoped rounds depth) e n)
    rwa [Eval.after_ok ho] at hafter

/-- Expressions that are evaluated in turn leave the machine undamaged, and a value whose marks are
right. -/
theorem evaluateAll_undamaged (rounds depth : Nat) (es : List Expr) {m : Machine}
    (hm : m.Undamaged) : (((ofDepth rounds depth).evaluateAll es).after m).Undamaged ∧
      ∀ v n, (ofDepth rounds depth).evaluateAll es m = .ok v n → v.Everywhere Value.Marked := by
  have hwithin := Conditions.marked_sound.lasting.evaluateAll rounds depth
    (fun e (_ : e ∈ es) _ hn => asks_part e hn) (undamaged_iff.1 hm).1
  have hev := evaluateAll_evolves (ofDepth_scoped rounds depth) es m
  exact ⟨undamaged_after hm hwithin hev, fun v n ho => hwithin.of_ok ho⟩

end Evaluator

namespace Program

/-- The machines on which programs have been run one after another, each to its end or until it failed,
the first on a fresh machine. In between there may be another console. -/
inductive Session : Machine → Prop
  | fresh (input : Text) : Session (freshMachine input)
  | run {m : Machine} (h : Session m) (limits : Limits) (p : Program) :
    Session (Eval.after (p.run limits) m)
  | console {m : Machine} (h : Session m) (c : Console) : Session { m with console := c }

/-- The library cannot be damaged. Whatever programs have been run on a machine, and however they have
ended, the outermost frame begins with the library in its order, and what variables hold at any nesting
is marked exactly if it is a native function. So it is on every machine in the course of one more
program, before and after each request, with the arguments that are handed to functions, and with the
results. -/
theorem library_undamaged {m : Machine} (h : Session m) : m.Undamaged ∧
    ∀ (limits : Limits) (p : Program),
      ThroughoutAll limits.rounds (KeepsLibrary limits.rounds) limits.depth p.exprs m ∧
      ∀ v m', p.run limits m = .ok v m' → v.Everywhere Value.Marked := by
  have hm : m.Undamaged := by
    induction h with
    | fresh input => exact Machine.freshMachine_undamaged input
    | run _ limits p ih => exact (evaluateAll_undamaged limits.rounds limits.depth p.exprs ih).1
    | console _ c ih => exact ⟨ih.library, ih.marks⟩
  refine ⟨hm, fun limits p => ⟨?_, ?_⟩⟩
  · exact throughoutAll_undamaged limits.rounds limits.depth p.exprs hm
  · exact (evaluateAll_undamaged limits.rounds limits.depth p.exprs hm).2

/-- A program that stores a native function under another name and fails to assign its own. -/
theorem library_undamaged_assignment :
    let pos := Position.start
    let p : Program := ⟨pos, [.declareAs "x" (.name "println" pos) pos,
      .assign "println" (.literal (.int 5) pos) pos]⟩
    let m := Eval.after (p.run ⟨3, 1⟩) (freshMachine [])
    Session m ∧ (∃ f m', p.run ⟨3, 1⟩ (freshMachine []) = .error f m') ∧
      m.scope.frame.get? "x" = some (.native .println) ∧ m.Undamaged := by
  intro pos p m
  have h : Session m := .run (.fresh []) ⟨3, 1⟩ p
  exact ⟨h, ⟨_, _, rfl⟩, rfl, (library_undamaged h).1⟩

end Program

end SmallLisp

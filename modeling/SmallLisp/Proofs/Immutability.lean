import SmallLisp.Proofs.Course

/-!
# Immutable values

A variable whose value is immutable keeps it while anything is evaluated that begins then. An assignment
and the initialiser of a declaration make sure that the variable is mutable, but evaluate the value
before they write it: what an evaluation of the value puts there meanwhile is overwritten, immutable or
not. Main statement: `Evaluator.immutable_kept`, what is kept, and exactly when a write replaces an
immutable value.
-/

set_option autoImplicit false

namespace SmallLisp

open Scope Evaluator

/-- The machine after some programs have been run on it one after another. -/
def Program.runAll (limits : Limits) (ps : List Program) (m : Machine) : Machine :=
  ps.foldl (fun m p => Eval.after (p.run limits) m) m

namespace Machine.Stores

variable {m s : Machine} {e c : Expr} {hops : Nat} {x : String}

/-- When the evaluation of what is to be stored begins, the variable is there and mutable. -/
theorem value (h : m.Stores e c s hops x) :
    ∃ u, valueAt s.scope.frames hops x = some u ∧ u.immutable = false := by
  cases h with
  | assign hx => exact ((assignable_eq_ok_iff ..).1 hx).2.1
  | declareAs hx =>
    refine ⟨.unit, ?_, rfl⟩
    rw [Machine.frames_declaring, valueAt_bind, hx, if_pos ⟨rfl, rfl, m.scope.home_lt_length⟩]
    rfl

end Machine.Stores

namespace Evaluator

variable {rounds depth : Nat}

theorem runAll_evolves (limits : Limits) (ps : List Program) (m : Machine) :
    Evolves 1 none anyVariable m.scope.frames (Program.runAll limits ps m).scope.frames := by
  induction ps generalizing m with
  | nil => exact .refl ..
  | cons p ps ih =>
    have hp := evaluateAll_evolves (ofDepth_scoped limits.rounds limits.depth) p.exprs m
    exact hp.trans (ih _)

/-- What a form replaces when it writes is what the evaluation of the value has left in the variable:
an immutable value only if that evaluation has written the variable itself. -/
theorem replaced_of_stores {m s n : Machine} {e c : Expr} {hops : Nat} {x : String} {v : Value}
    (hstores : m.Stores e c s hops x) (hv : (ofDepth rounds depth).evaluate c s = .ok v n) :
    ∃ w, valueAt n.scope.frames hops x = some w ∧
      (w.immutable = true → ¬ Throughout rounds
        (WritesOnly fun d y => ¬(d = depthAt s.scope.frames hops ∧ y = x)) depth (.visit c)
        s.child) := by
  obtain ⟨u, hu, himm⟩ := hstores.value
  have hev := evaluate_evolves (ofDepth_scoped rounds depth) c s
  rw [Eval.after_ok hv] at hev
  have hbound : (valueAt n.scope.frames hops x).isSome := hev.bound hops x (by rw [hu]; rfl)
  obtain ⟨w, hw⟩ := Option.isSome_iff_exists.1 hbound
  refine ⟨w, hw, fun hwimm hthroughout => ?_⟩
  have hkept := hthroughout.kept hu
  rw [Eval.after_ok hv, hw] at hkept
  cases hkept
  rw [himm] at hwimm
  cases hwimm

/-- Immutable values, for every evaluation on every machine, hence for those in the course of every run.
What is immutable when an evaluation or a call begins is kept to its end, and so through the runs of a
session; the library is never overwritten. Nothing but a write changes a value. A form that writes a
variable has found it mutable, or made it, and writes it whatever it holds by then: it replaces an
immutable value exactly if the evaluation of what is written has left one there, for which that evaluation
must have written the same variable. -/
theorem immutable_kept (rounds : Nat) :
    (∀ depth (r : Request) (m : Machine) k x v, valueAt m.scope.frames k x = some v →
      v.immutable = true →
      valueAt (((ofDepth rounds depth).answer r).after m).scope.frames k x = some v) ∧
    (∀ depth (ps : List Program) (m : Machine) k x v, valueAt m.scope.frames k x = some v →
      v.immutable = true →
      valueAt (Program.runAll ⟨depth, rounds⟩ ps m).scope.frames k x = some v) ∧
    (∀ depth (ps : List Program) (input : Text) (f : Native),
      valueAt (Program.runAll ⟨depth, rounds⟩ ps (Program.freshMachine input)).scope.frames 0 f.name =
        some (.native f)) ∧
    (∀ depth (r : Request) (m : Machine) k x v, valueAt m.scope.frames k x = some v →
      Throughout rounds (WritesOnly fun d y => ¬(d = depthAt m.scope.frames k ∧ y = x)) depth r m →
      valueAt (((ofDepth rounds depth).answer r).after m).scope.frames k x = some v) ∧
    ∀ depth (m s : Machine) (e c : Expr) hops x, m.Stores e c s hops x →
      (∃ u, valueAt s.scope.frames hops x = some u ∧ u.immutable = false) ∧
      ∀ v n, (ofDepth rounds depth).evaluate c s = .ok v n →
        (ofDepth rounds (depth + 1)).visit e m = .ok .unit (n.writing hops x v) ∧
        valueAt (n.writing hops x v).scope.frames hops x = some v ∧
        ∃ w, valueAt n.scope.frames hops x = some w ∧
          (w.immutable = true → ¬ Throughout rounds
            (WritesOnly fun d y => ¬(d = depthAt s.scope.frames hops ∧ y = x)) depth (.visit c)
            s.child) := by
  have hsession : ∀ depth (ps : List Program) (m : Machine) k x v,
      valueAt m.scope.frames k x = some v → v.immutable = true →
      valueAt (Program.runAll ⟨depth, rounds⟩ ps m).scope.frames k x = some v :=
    fun depth ps m k x v hv himm => (runAll_evolves ⟨depth, rounds⟩ ps m).frozen hv himm
  refine ⟨?_, hsession, ?_, ?_, ?_⟩
  · exact fun depth r m k x v hv himm => (ofDepth_scoped rounds depth r m).frozen hv himm
  · intro depth ps input f
    refine hsession depth ps _ 0 f.name (.native f) ?_ rfl
    cases f <;> rfl
  · exact fun depth r m k x v hv hwrites => hwrites.evolves.kept hv fun hw => hw ⟨rfl, rfl⟩
  · intro depth m s e c hops x hstores
    refine ⟨hstores.value, fun v n hv => ?_⟩
    obtain ⟨w, hw, hreplaced⟩ := replaced_of_stores hstores hv
    have hwritten := Machine.valueAt_writing (Option.isSome_of_eq_some hw) v
    exact ⟨visitNext_of_writes rounds ⟨c, s, hstores, hv⟩, hwritten, w, hw, hreplaced⟩

/-- An assignment whose value is evaluated to `5` after `println` has been put in the same variable: the
library keeps `println`, the variable does not. -/
theorem immutable_kept_but_for_pending_write :
    let pos := Position.start
    let value := Expr.call (.operator .sequence)
      [.assign "x" (.name "println" pos) pos, .literal (.int 5) pos] pos
    let e := Expr.assign "x" value pos
    let library : Frame := ⟨[⟨"println", .native .println⟩, ⟨"x", .int 1⟩]⟩
    let m : Machine := ⟨⟨.empty, [library]⟩, .reading []⟩
    valueAt (((ofDepth 1 5).answer (.visit e)).after m).scope.frames 1 "println" =
      some (.native .println) ∧
    m.Stores e value m 1 "x" ∧
    ∃ n, (ofDepth 1 4).evaluate value m = .ok (.int 5) n ∧
      valueAt n.scope.frames 1 "x" = some (.native .println) ∧
      (ofDepth 1 5).visit e m = .ok .unit (n.writing 1 "x" (.int 5)) ∧
      valueAt (n.writing 1 "x" (.int 5)).scope.frames 1 "x" = some (.int 5) ∧
      ¬ Throughout 1 (WritesOnly fun d y => ¬(d = 0 ∧ y = "x")) 4 (.visit value) m.child := by
  intro pos value e library m
  obtain ⟨hkept, -, -, -, hstored⟩ := immutable_kept 1
  have hstores : m.Stores e value m 1 "x" := .assign rfl
  obtain ⟨-, hwrite⟩ := hstored 4 m m e value 1 "x" hstores
  obtain ⟨hvisit, hnew, w, hw, hreplaced⟩ := hwrite (.int 5) _ rfl
  refine ⟨hkept 5 (.visit e) m 1 "println" (.native .println) rfl rfl, hstores, _, rfl, rfl,
    hvisit, hnew, ?_⟩
  cases hw
  exact hreplaced rfl

/-- A write that replaces what the program has made immutable while the value was evaluated. -/
theorem immutable_overwritten :
    ¬ ∀ (limits : Limits) (p : Program) (input : Text), ThroughoutAll limits.rounds
      (fun lower q n => ∀ e hops x v p w, q = .visit e → lower.Writes n e hops x v p →
        valueAt p.scope.frames hops x = some w → w.immutable = false)
      limits.depth p.exprs (Program.freshMachine input) := by
  intro h
  let pos := Position.start
  let value := Expr.call (.operator .sequence)
    [.assign "x" (.name "println" pos) pos, .literal (.int 5) pos] pos
  have hrun := h ⟨6, 1⟩ ⟨pos, [.declareAs "x" (.literal (.int 1) pos) pos, .assign "x" value pos]⟩ []
  obtain ⟨-, hrest⟩ := hrun
  obtain ⟨⟨hassign, -⟩, -⟩ := hrest _ _ rfl
  have hmutable := hassign _ _ _ _ _ (.native .println) rfl ⟨_, _, .assign rfl, rfl⟩ rfl
  cases hmutable

end Evaluator

end SmallLisp

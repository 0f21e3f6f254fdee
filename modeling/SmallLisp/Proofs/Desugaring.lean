import SmallLisp.Proofs.EmptyFrames
import SmallLisp.Proofs.Meaning

/-!
# Forms that others stand for

A sequence of one expression is that expression, and a `for` is a sequence of its initialiser and a
`while`: what is written in fewer forms has more frames around its parts, but these stay empty where a
part is no declaration. Main statements: `Evaluator.sequence_of_one` and `Evaluator.for_is_while`.
-/

set_option autoImplicit false

namespace SmallLisp

/-! ## Blaming once -/

theorem Failure.blame_blame (f : Failure) (place place' : Position) :
    (f.blame place).blame place' = f.blame place := by
  cases f <;> rfl

namespace Eval

variable {α β : Type}

/-- No failure of a computation has anything left to blame. -/
def Blamed (x : Eval α) : Prop := ∀ m f n place, x m = .error f n → f.blame place = f

theorem Blamed.blaming_eq {x : Eval α} (hx : Blamed x) (place : Position) : blaming place x = x := by
  funext m
  rw [blaming]
  cases ho : x m with
  | ok a n => rfl
  | error f n => simp only [hx m f n place ho]

theorem blamed_blaming (place : Position) (x : Eval α) : Blamed (blaming place x) := by
  intro m f n place' hf
  rw [blaming] at hf
  cases ho : x m with
  | ok a p =>
    rw [ho] at hf
    cases hf
  | error g p =>
    rw [ho] at hf
    cases hf
    exact g.blame_blame place place'

theorem Blamed.bind {x : Eval α} {f : α → Eval β} (hx : Blamed x) (hf : ∀ a, Blamed (f a)) :
    Blamed (x >>= f) := by
  intro m g n place h
  cases ho : x m with
  | ok a p =>
    rw [bind_ok ho] at h
    exact hf a p g n place h
  | error e p =>
    rw [bind_error ho] at h
    cases h
    exact hx m g n place ho

theorem blaming_inChild (place : Position) (x : Eval α) :
    blaming place (inChild x) = inChild (blaming place x) := by
  funext m
  rw [blaming, inChild_apply, inChild_apply, blaming]
  cases x m.child <;> rfl

/-- What is blamed for all of a computation need not be blamed for its last part before. -/
theorem blaming_bind_blaming (place : Position) (x : Eval α) (f : α → Eval β) :
    blaming place (x >>= fun a => blaming place (f a)) = blaming place (x >>= f) := by
  funext m
  rw [blaming, blaming]
  cases ho : x m with
  | ok a n =>
    rw [bind_ok ho, bind_ok ho, blaming]
    cases f a n with
    | ok b p => rfl
    | error g p => simp only [g.blame_blame]
  | error g n => rw [bind_error ho, bind_error ho]

end Eval

namespace Evaluator

open Eval

theorem blamed_evaluate (ev : Evaluator) (e : Expr) : Blamed (ev.evaluate e) := blamed_blaming _ _

/-! ## Sequences -/

theorem evaluate_next_sequence (lower : Evaluator) (rounds : Nat) (e : Expr) (es : List Expr)
    (pos : Position) :
    (lower.next rounds).evaluate (.call (.operator .sequence) (e :: es) pos) =
      blaming pos (inChild (lower.evaluate e >>= fun v =>
        es.foldlM (fun _ e => lower.evaluate e) v)) := rfl

/-- A sequence of one expression has one more frame around it. -/
theorem evaluate_next_sequence_one (rounds depth : Nat) {e : Expr} (he : e.declares? = none)
    (pos : Position) :
    (ofDepth rounds (depth + 1)).evaluate (.call (.operator .sequence) [e] pos) =
      (ofDepth rounds depth).evaluate e := by
  have hlast : ((ofDepth rounds depth).evaluate e >>= fun v =>
      [].foldlM (fun _ e => (ofDepth rounds depth).evaluate e) v) =
      (ofDepth rounds depth).evaluate e := bind_pure _
  rw [ofDepth, evaluate_next_sequence, hlast, inChild_evaluate rounds depth he]
  exact (blamed_evaluate _ e).blaming_eq pos

/-- A sequence of two expressions that declare nothing is one after the other. -/
theorem evaluate_next_sequence_two (rounds depth : Nat) {e e' : Expr} (he : e.declares? = none)
    (he' : e'.declares? = none) (pos : Position) :
    (ofDepth rounds (depth + 1)).evaluate (.call (.operator .sequence) [e, e'] pos) =
      (ofDepth rounds depth).evaluate e >>= fun _ => (ofDepth rounds depth).evaluate e' := by
  have hlast : ((ofDepth rounds depth).evaluate e >>= fun v =>
      [e'].foldlM (fun _ e => (ofDepth rounds depth).evaluate e) v) =
      (ofDepth rounds depth).evaluate e >>= fun _ => (ofDepth rounds depth).evaluate e' :=
    bind_congr fun _ => bind_pure _
  have hframe : inChild ((ofDepth rounds depth).evaluate e >>= fun _ =>
      (ofDepth rounds depth).evaluate e') = _ :=
    inChild_eq ((evaluate_frameless rounds depth he).bind fun _ =>
      evaluate_frameless rounds depth he')
  rw [ofDepth, evaluate_next_sequence, hlast, hframe]
  exact ((blamed_evaluate _ e).bind fun _ => blamed_evaluate _ e').blaming_eq pos

/-- A sequence of one expression that is no declaration is that expression, on every machine: all the
frames that an evaluation reaches, with whatever is in them, and the console. It comes to the same value
or the same failure, blamed on the same place, and leaves the same machine; or neither comes to
anything. -/
theorem sequence_of_one {e : Expr} (he : e.declares? = none) (pos : Position) (m : Machine) :
    (∀ rounds depth,
      (ofDepth rounds (depth + 1)).evaluate (.call (.operator .sequence) [e] pos) m =
        (ofDepth rounds depth).evaluate e m) ∧
    Expr.SameOn m (.call (.operator .sequence) [e] pos) e := by
  have hlevel := fun rounds depth => evaluate_next_sequence_one rounds depth he pos
  refine ⟨fun rounds depth => by rw [hlevel], .of_agrees ?_ ?_⟩
  · intro limits
    refine ⟨limits, ?_⟩
    have hraise := evaluate_agrees (ofDepth_agrees (Nat.le_refl limits.rounds)
      (Nat.le_succ limits.depth)) (.call (.operator .sequence) [e] pos)
    rw [hlevel] at hraise
    exact hraise
  · intro limits
    refine ⟨⟨limits.depth + 1, limits.rounds⟩, .of_eq fun n => ?_⟩
    exact (congrFun (hlevel limits.rounds limits.depth) n).symm

/-- An assignment in a frame with a variable of the frame around it. -/
theorem sequence_of_one_assignment :
    let pos := Position.start
    let e := Expr.assign "x" (.literal (.int 5) pos) pos
    let m : Machine := ⟨⟨.empty, [⟨[⟨"x", .int 1⟩]⟩]⟩, .reading []⟩
    e.declares? = none ∧
    ∃ n, (ofDepth 1 3).evaluate (.call (.operator .sequence) [e] pos) m = .ok .unit n ∧
      Scope.valueAt n.scope.frames 1 "x" = some (.int 5) ∧
      Expr.SameOn m (.call (.operator .sequence) [e] pos) e := by
  intro pos e m
  have he : e.declares? = none := rfl
  obtain ⟨hlevel, hsame⟩ := sequence_of_one he pos m
  exact ⟨he, _, (hlevel 1 2).trans rfl, rfl, hsame⟩

end Evaluator

/-! ## Loops -/

/-- The condition of a `while` that stands for a `for` with this condition. -/
def Expr.orTrue (cond : Expr) (pos : Position) : Expr :=
  if Evaluator.isEmptyCondition cond then .literal (.bool true) pos else cond

/-- The sequence of an initialiser and a `while` that a `for` stands for. -/
def Expr.asWhile (init cond post body : Expr) (pos : Position) : Expr :=
  .call (.operator .sequence)
    [init, .whileLoop (cond.orTrue pos) (.call (.operator .sequence) [body, post] pos) pos] pos

namespace Evaluator

open Eval

/-- Whether the condition of a `for` holds. -/
def holds (ev : Evaluator) (cond : Expr) : Eval Bool :=
  if isEmptyCondition cond then return true else ev.test cond

/-- What a `for` does each time it goes round. -/
def turn (ev : Evaluator) (body post : Expr) : Eval Unit := do
  discard <| ev.evaluate body
  discard <| ev.evaluate post

/-- A `for` without its initialiser, the condition and the turns being evaluated at levels of their
own. -/
def loop (second third : Evaluator) (rounds : Nat) (cond post body : Expr) : Eval Value := do
  Eval.repeatWhile (second.holds cond) (third.turn body post) rounds
  return .unit

/-- A `for` whose parts are evaluated at levels of their own. -/
def loopBy (first second third : Evaluator) (rounds : Nat) (init cond post body : Expr)
    (pos : Position) : Eval Value :=
  blaming pos (inChild (first.evaluate init >>= fun _ => loop second third rounds cond post body))

section
variable {init cond post body : Expr}

theorem discard_eq_bind {α : Type} (x : Eval α) :
    (discard x : Eval Unit) = x >>= fun _ => pure () := rfl

theorem evaluate_next_for (lower : Evaluator) (rounds : Nat) (init cond post body : Expr)
    (pos : Position) :
    (lower.next rounds).evaluate (.forLoop init cond post body pos) =
      loopBy lower lower lower rounds init cond post body pos := by
  rw [loopBy, ← pure_bind () fun _ => loop lower lower rounds cond post body, ← bind_assoc,
    ← discard_eq_bind]
  rfl

theorem evaluate_next_while (lower : Evaluator) (rounds : Nat) (cond body : Expr)
    (pos : Position) :
    (lower.next rounds).evaluate (.whileLoop cond body pos) =
      blaming pos (inChild (Eval.repeatWhile (lower.test cond) (discard (lower.evaluate body)) rounds
        >>= fun _ => pure .unit)) := rfl

/-- The condition of the `while` is tested as that of the `for`. -/
theorem test_orTrue (lower : Evaluator) (rounds : Nat) (cond : Expr) (pos : Position) :
    (lower.next rounds).test (cond.orTrue pos) = (lower.next rounds).holds cond := by
  rw [holds, Expr.orTrue]
  cases isEmptyCondition cond <;> rfl

theorem loop_frameless (rounds depth : Nat) (hcond : cond.declares? = none)
    (hpost : post.declares? = none) (hbody : body.declares? = none) :
    Eval.Alike False (Machine.Spaced 0)
      (loop (ofDepth rounds (depth + 1)) (ofDepth rounds depth) rounds cond post body)
      (loop (ofDepth rounds (depth + 1)) (ofDepth rounds depth) rounds cond post body) := by
  have hholds : Eval.Alike False (Machine.Spaced 0) ((ofDepth rounds (depth + 1)).holds cond)
      ((ofDepth rounds (depth + 1)).holds cond) := by
    rw [holds]
    split
    · exact .pure true
    · exact (evaluate_frameless rounds (depth + 1) hcond).bind fun _ => .ofFault _
  have hturn := (evaluate_frameless rounds depth hbody).discard.bind fun _ =>
    (evaluate_frameless rounds depth hpost).discard
  exact (hholds.repeatWhile hturn (Nat.le_refl _) (.inr rfl)).bind fun _ => .pure _

/-- The frame of a `while` and those of its turns make no difference. -/
theorem evaluate_while_orTrue (rounds depth : Nat) (hcond : cond.declares? = none)
    (hpost : post.declares? = none) (hbody : body.declares? = none) (pos : Position) :
    (ofDepth rounds (depth + 2)).evaluate
        (.whileLoop (cond.orTrue pos) (.call (.operator .sequence) [body, post] pos) pos) =
      blaming pos
        (loop (ofDepth rounds (depth + 1)) (ofDepth rounds depth) rounds cond post body) := by
  have hturn : (discard ((ofDepth rounds (depth + 1)).evaluate
      (.call (.operator .sequence) [body, post] pos)) : Eval Unit) =
      (ofDepth rounds depth).turn body post := by
    rw [evaluate_next_sequence_two rounds depth hbody hpost, turn]
    simp only [discard_eq_bind, bind_assoc, pure_bind]
  have htest : (ofDepth rounds (depth + 1)).test (cond.orTrue pos) =
      (ofDepth rounds (depth + 1)).holds cond := test_orTrue (ofDepth rounds depth) rounds cond pos
  rw [ofDepth, evaluate_next_while, hturn, htest]
  exact congrArg (blaming pos) (inChild_eq (loop_frameless rounds depth hcond hpost hbody))

theorem evaluate_asWhile (rounds depth : Nat) (hcond : cond.declares? = none)
    (hpost : post.declares? = none) (hbody : body.declares? = none) (pos : Position) :
    (ofDepth rounds (depth + 3)).evaluate (.asWhile init cond post body pos) =
      loopBy (ofDepth rounds (depth + 2)) (ofDepth rounds (depth + 1)) (ofDepth rounds depth) rounds
        init cond post body pos := by
  have hwhile := evaluate_while_orTrue rounds depth hcond hpost hbody pos
  have hlast (v : Value) : [Expr.whileLoop (cond.orTrue pos)
      (.call (.operator .sequence) [body, post] pos) pos].foldlM
        (fun _ e => (ofDepth rounds (depth + 2)).evaluate e) v = _ := (bind_pure _).trans hwhile
  rw [Expr.asWhile, ofDepth, evaluate_next_sequence, loopBy, blaming_inChild, blaming_inChild]
  simp only [hlast]
  rw [blaming_bind_blaming]

/-- Loops at levels that agree agree. -/
theorem loopBy_agrees {a b c a' b' c' : Evaluator}
    (ha : ∀ q, Eval.Agrees (a.answer q) (a'.answer q))
    (hb : ∀ q, Eval.Agrees (b.answer q) (b'.answer q))
    (hc : ∀ q, Eval.Agrees (c.answer q) (c'.answer q)) (rounds : Nat) (pos : Position) :
    Eval.Agrees (loopBy a b c rounds init cond post body pos)
      (loopBy a' b' c' rounds init cond post body pos) := by
  have hholds : Eval.Agrees (b.holds cond) (b'.holds cond) := by
    rw [holds, holds]
    split
    · exact .pure true
    · exact (evaluate_agrees hb cond).bind fun _ => .ofFault _
  have hturn : Eval.Agrees (c.turn body post) (c'.turn body post) :=
    (evaluate_agrees hc body).discard.bind fun _ => (evaluate_agrees hc post).discard
  have hloop : Eval.Agrees (loop b c rounds cond post body) (loop b' c' rounds cond post body) :=
    (hholds.repeatWhile hturn (Nat.le_refl _) (.inl trivial)).bind fun _ => .pure _
  refine Eval.Alike.blaming (Eval.Alike.inChild ((evaluate_agrees ha init).bind fun _ => hloop)
    ?_ ?_) pos
  · rintro m _ rfl
    rfl
  · rintro m _ rfl
    rfl

/-- A `for` whose condition, step and body are no declarations is the sequence of its initialiser and a
`while` that it stands for, whatever the initialiser is: on every machine both go on for ever, or both
come to the same value or the same failure, blamed on the same place, and leave the same machine. -/
theorem for_is_while (hcond : cond.declares? = none) (hpost : post.declares? = none)
    (hbody : body.declares? = none) (pos : Position) (m : Machine) :
    Expr.SameOn m (.forLoop init cond post body pos) (.asWhile init cond post body pos) := by
  have hlevel (rounds : Nat) {depth depth' : Nat} (h : depth ≤ depth') (q : Request) :
      Eval.Agrees ((ofDepth rounds depth).answer q) ((ofDepth rounds depth').answer q) :=
    ofDepth_agrees (Nat.le_refl rounds) h q
  have hwhile := fun rounds depth =>
    @evaluate_asWhile init cond post body rounds depth hcond hpost hbody pos
  have hfor := fun rounds depth =>
    evaluate_next_for (ofDepth rounds depth) rounds init cond post body pos
  refine .of_agrees ?_ ?_
  · rintro ⟨depth, rounds⟩
    refine ⟨⟨depth + 3, rounds⟩, ?_⟩
    have hraise := evaluate_agrees (hlevel rounds (Nat.le_succ depth))
      (.forLoop init cond post body pos)
    have hloop := @loopBy_agrees init cond post body _ _ _ _ _ _
      (hlevel rounds (Nat.le_add_right depth 2)) (hlevel rounds (Nat.le_add_right depth 1))
      (hlevel rounds (Nat.le_refl depth)) rounds pos
    rw [ofDepth, hfor] at hraise
    rw [← hwhile] at hloop
    exact hraise.trans hloop
  · rintro ⟨depth, rounds⟩
    refine ⟨⟨depth + 3, rounds⟩, ?_⟩
    have hraise := evaluate_agrees (hlevel rounds (Nat.le_add_right depth 3))
      (.asWhile init cond post body pos)
    have hloop := @loopBy_agrees init cond post body _ _ _ _ _ _
      (hlevel rounds (Nat.le_refl (depth + 2))) (hlevel rounds (Nat.le_succ (depth + 1)))
      (hlevel rounds (Nat.le_add_right depth 2)) rounds pos
    rw [hwhile] at hraise
    rw [← hfor] at hloop
    exact hraise.trans hloop

/-- A loop over a variable of its own that goes round once. -/
theorem for_is_while_once :
    let pos := Position.start
    let init := Expr.declareAs "i" (.literal (.bool true) pos) pos
    let cond := Expr.name "i" pos
    let post := Expr.assign "i" (.literal (.bool false) pos) pos
    let body := Expr.unit pos
    let m : Machine := ⟨.root .empty, .reading []⟩
    (cond.declares? = none ∧ post.declares? = none ∧ body.declares? = none) ∧
    Limits.evaluate ⟨3, 2⟩ (.forLoop init cond post body pos) m = .ok .unit m ∧
    Expr.SameOn m (.forLoop init cond post body pos) (.asWhile init cond post body pos) := by
  intro pos init cond post body m
  exact ⟨⟨rfl, rfl, rfl⟩, rfl, for_is_while rfl rfl rfl pos m⟩

end

end Evaluator

end SmallLisp

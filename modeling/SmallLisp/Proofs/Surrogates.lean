import SmallLisp.Proofs.Blame
import SmallLisp.Proofs.Lasting
import SmallLisp.Proofs.Limits

/-!
# How runs end

A run ends with a value or with an error that says what it means, unless it gives up at its limits or
compares a text that has no UTF-8 form. Main statement: `Program.endings`, which says where the last can
happen, and that it cannot in programs that never read the name `char`: surrogates come from there and
from the input alone (`Terms.plain_lasting`).
-/

set_option autoImplicit false

namespace SmallLisp

open Scope Evaluator

/-! ## What makes no surrogates -/

/-- An expression reads a name, somewhere in it. -/
inductive Expr.Reads (x : String) : Expr → Prop
  | here {e : Expr} (h : (Request.visit e).reads = some x) : Reads x e
  | part {e c : Expr} (hc : c ∈ e.children) (h : Reads x c) : Reads x e

/-- What is called makes no surrogates. -/
def Callable.Plain : Callable → Prop
  | function _ body => ¬ body.Reads Native.char.name
  | native f => f ≠ .char

/-- The value holds no surrogates and, if it is called, makes none. -/
def Value.PlainItself (v : Value) : Prop :=
  v.Encodable ∧ ∀ callee, v.callable? = some callee → callee.Plain

/-- The value and all items in it hold no surrogates and make none. -/
def Value.Plain (v : Value) : Prop := v.Everywhere Value.PlainItself

/-- Nothing but the variables of one name and what has been written may hold surrogates. -/
structure Machine.Plain (m : Machine) : Prop where
  values : ∀ k x v, valueAt m.scope.frames k x = some v → x ≠ Native.char.name → v.Plain
  input : Text.Encodable m.console.input

/-- A request for something that makes no surrogates. -/
def Request.Plain : Request → Prop
  | visit e => ¬ e.Reads Native.char.name
  | call callee args => callee.Plain ∧ ∀ v ∈ args, v.Plain

/-- Terms without surrogates. -/
def Terms.plain : Terms where
  machine := Machine.Plain
  value := Value.Plain
  asks t n := t.request.Plain ∧ n.Plain
  fails f := f ≠ .unencodable

namespace Value

theorem Plain.encodable {v : Value} (hv : v.Plain) : v.Everywhere Encodable :=
  hv.mono fun _ h => h.1

theorem Plain.render {v : Value} (hv : v.Plain) : v.render.Encodable :=
  render_encodable hv.encodable

end Value

theorem Callable.plain_value_iff {callee : Callable} : callee.value.Plain ↔ callee.Plain := by
  constructor
  · intro h
    cases callee <;> exact h.self.2 _ rfl
  · intro h
    cases callee <;>
    · refine .of_no_items rfl ⟨trivial, ?_⟩
      rintro callee ⟨⟩
      exact h

/-- A task makes an error of nothing else. -/
theorem Task.eq_of_relabel {t : Task} {f : Failure} (h : t.relabel f = .unencodable) :
    f = .unencodable := by
  cases t with
  | part e => cases f <;> first | rfl | cases h
  | body e => exact h
  | call callee args => exact h

theorem Console.mem_of_mem_withoutReturn {t : Text} {c : CodePoint}
    (h : c ∈ Console.withoutReturn t) : c ∈ t := by
  unfold withoutReturn at h
  split at h
  · exact (List.dropLast_sublist t).subset h
  · exact h

namespace Machine.Plain

variable {m : Machine}

theorem bind (hm : m.Plain) (hops : Nat) (x : String) {v : Value} (hv : v.Plain) :
    Machine.Plain { m with scope := m.scope.modify hops (·.bind x v) } :=
  ⟨HoldsBut.bind hm.values hops x hv, hm.input⟩

theorem set (hm : m.Plain) (hops : Nat) (x : String) {v : Value} (hv : v.Plain) :
    Machine.Plain { m with scope := m.scope.modify hops (·.set x v) } :=
  ⟨HoldsBut.set hm.values hops x hv, hm.input⟩

theorem child (hm : m.Plain) : m.child.Plain := ⟨HoldsBut.child hm.values, hm.input⟩

theorem enclosing (hm : m.Plain) : m.enclosing.Plain := ⟨HoldsBut.enclosing hm.values, hm.input⟩

theorem value (hm : m.Plain) {x : String} {v : Value} (hv : m.scope.value? x = some v)
    (hx : x ≠ Native.char.name) : v.Plain :=
  HoldsBut.value hm.values hv hx

/-- The library holds nothing that makes surrogates but `char`. -/
theorem freshMachine {input : Text} (h : input.Encodable) : (Program.freshMachine input).Plain where
  values := by
    refine HoldsBut.freshMachine (fun f hf => ?_) input
    refine Value.Everywhere.of_no_items rfl ⟨trivial, ?_⟩
    rintro callee ⟨⟩ rfl
    exact hf rfl
  input := h

theorem readLine (hm : m.Plain) {line : Text} {c : Console}
    (h : m.console.readLine? = some (line, c)) :
    line.Encodable ∧ Machine.Plain { m with console := c } := by
  unfold Console.readLine? at h
  split at h
  · cases h
  · cases h
    refine ⟨fun d hd => ?_, hm.values, fun d hd => ?_⟩
    · exact hm.input d ((List.takeWhile_sublist _).subset (Console.mem_of_mem_withoutReturn hd))
    · exact hm.input d ((List.dropWhile_sublist _).subset (List.mem_of_mem_drop hd))

end Machine.Plain

namespace Terms

theorem plain_closed : plain.Closed where
  child _ hm := hm.child
  bind _ hops x _ hm hv := hm.bind hops x hv
  set _ hops x _ hm hv := hm.set hops x hv
  echo _ _ hm := ⟨hm.values, hm.input⟩
  line _ _ _ hm h := by
    obtain ⟨hline, hmachine⟩ := hm.readLine h
    exact ⟨Value.Everywhere.of_no_items rfl ⟨hline, nofun⟩, hmachine⟩
  unit := Value.Everywhere.of_no_items rfl ⟨trivial, nofun⟩
  int _ := Value.Everywhere.of_no_items rfl ⟨trivial, nofun⟩
  bool _ := Value.Everywhere.of_no_items rfl ⟨trivial, nofun⟩
  text s := Value.Everywhere.of_no_items rfl ⟨Text.encodable_ofString s, nofun⟩
  array _ hvs := Value.Everywhere.intro ⟨trivial, nofun⟩ hvs
  item vs i h v hv := Value.Everywhere.item h hv
  joined t i v ht hv :=
    Value.Everywhere.of_no_items rfl ⟨Text.Encodable.append ht.self.1 hv.render, nofun⟩
  rendered v hv := Value.Everywhere.of_no_items rfl ⟨hv.render, nofun⟩
  character t i ht c hc := Value.Everywhere.of_no_items rfl ⟨ht.self.1 c hc, nofun⟩
  coded h _ := absurd rfl (h.self.2 _ rfl)
  callable _ callee hv h := Callable.plain_value_iff.2 (hv.self.2 callee h)
  fault _ _ := nofun
  exhausted := nofun

theorem plain_fair {r : Request} (hr : r.Plain) : plain.Fair r :=
  { plain_closed with
    given := by
      rintro callee args rfl
      exact ⟨Callable.plain_value_iff.2 hr.1, hr.2⟩
    function := by
      rintro params body pos rfl
      exact .of_no_items rfl ⟨trivial, by rintro callee ⟨⟩ h; exact hr (.part List.mem_cons_self h)⟩
    lookup := by
      intro x m v hx hm hv
      refine hm.value hv ?_
      rintro rfl
      cases r with
      | visit e => exact hr (.here hx)
      | call callee args => cases hx
    relate := by
      rintro rel a b f - ha hb h rfl
      exact Value.relate_unencodable h ⟨ha.encodable, hb.encodable⟩
    part := by
      intro c hc n hn
      cases r with
      | visit e => exact ⟨fun h => hr (.part hc h), hn.child⟩
      | call callee args => cases hc
    body := fun params body n _ hfunction hn => ⟨hfunction.self.2 _ rfl, hn⟩
    call := fun callee args n _ hcallee hargs hn =>
      ⟨⟨Callable.plain_value_iff.1 hcallee, hargs⟩, hn⟩ }

/-- What makes no surrogates keeps to terms without them, at any depth. -/
theorem plain_lasting : plain.Lasting Request.Plain where
  closed := plain_closed
  fair _ := plain_fair
  asked _ _ h := h
  relabel _ _ _ _ hf h := hf (Task.eq_of_relabel h)
  enclosing _ hm := hm.enclosing

end Terms

/-- So do expressions that are evaluated in turn. -/
theorem Evaluator.evaluateAll_plain (rounds depth : Nat) {es : List Expr}
    (hes : ∀ e ∈ es, ¬ e.Reads Native.char.name) {m : Machine} (hm : m.Plain) :
    Outcome.Within Terms.plain Value.Plain ((ofDepth rounds depth).evaluateAll es m) :=
  Terms.plain_lasting.evaluateAll rounds depth (fun e he _ hn => ⟨hes e he, hn.child⟩) hm

/-! ## Comparisons without a UTF-8 form -/

/-- A request is a comparison whose operands come to values that cannot be compared, because one of them
holds a surrogate. -/
def Evaluator.ComparesSurrogate (lower : Evaluator) (q : Request) (o : Machine) : Prop :=
  ∃ rel left right pos a n b p,
    q = .visit (.call (.operator (.relation rel)) [left, right] pos) ∧
    lower.evaluate left o = .ok a n ∧ lower.evaluate right n = .ok b p ∧
    a.relate rel b = .error .unencodable ∧
    ¬ (a.Everywhere Value.Encodable ∧ b.Everywhere Value.Encodable)

section
variable {lower : Evaluator} {rounds : Nat} {o p : Machine}

/-- A comparison that fails by itself for want of a UTF-8 form has compared. -/
theorem Evaluator.comparesSurrogate_of_failsItself {rel : Relation} {q : Request}
    (hq : q.relates = some rel)
    (h : FailsItself lower (fun ev => (ev.next rounds).answer q o) .unencodable p) :
    lower.ComparesSurrogate q o := by
  obtain ⟨operands, pos, rfl⟩ :
      ∃ operands pos, q = .visit (.call (.operator (.relation rel)) operands pos) := by
    unfold Request.relates at hq
    split at hq
    · cases hq
      exact ⟨_, _, rfl⟩
    · cases hq
  have hlower : lower.operate (.relation rel) operands o = .error .unencodable p := h _ (.refl _)
  match operands, h, hlower with
  | [], _, hlower | [_], _, hlower | _ :: _ :: _ :: _, _, hlower => cases hlower
  | [left, right], h, hlower =>
    obtain ⟨a, n, hleft⟩ := h.evaluate_ok (c := left) (n := o) (fun _ _ => rfl)
    obtain ⟨b, p', hright⟩ := h.evaluate_ok (c := right) (n := n) fun other hother =>
      Eval.bind_ok (hother.evaluate hleft) _
    have hrelated : Eval.ofExcept (a.relate rel b) p' = .error .unencodable p := by
      rw [← hlower]
      exact ((Eval.bind_ok hleft _).trans (Eval.bind_ok hright _)).symm
    have hrelate : a.relate rel b = .error .unencodable := by
      cases hab : a.relate rel b with
      | ok v =>
        rw [hab] at hrelated
        cases hrelated
      | error f =>
        rw [hab] at hrelated
        cases hrelated
        rfl
    exact ⟨rel, left, right, pos, a, n, b, p', rfl, hleft, hright, hrelate,
      Value.relate_unencodable hrelate⟩

end

namespace Program

/-- How a run can end, on whatever machine it begins: with a value; with an error that has a place and
whose fault is what it says, a wrong number of operands or arguments being really wrong; by giving up at
its limits; or for want of a UTF-8 form, and then what has failed by itself is a comparison whose operands
have come to values of which one holds a surrogate. The last does not happen in a fresh run of a program
that nowhere reads the name `char`, if what it reads holds no surrogates either. -/
theorem endings (limits : Limits) (p : Program) :
    (∀ m, (∃ v m', p.run limits m = .ok v m') ∨
      (∃ fault place m', p.run limits m = .error (.error ⟨fault, some place⟩) m' ∧ fault.Genuine) ∨
      Outcome.GivesUp (p.run limits m) ∨
      ∃ m' e n ts q o d, p.run limits m = .error .unencodable m' ∧ p.Reaches limits m e n ∧
        Unwinds limits.rounds limits.depth (.visit e) n.child ts q o .unencodable ∧
        limits.depth = ts.length + (d + 1) ∧ (ofDepth limits.rounds d).ComparesSurrogate q o) ∧
    ∀ input : Text, input.Encodable → (∀ e ∈ p.exprs, ¬ e.Reads Native.char.name) →
      ∀ m', p.run limits (freshMachine input) ≠ .error .unencodable m' := by
  constructor
  · intro m
    cases hrun : p.run limits m with
    | ok v m' => exact .inl ⟨v, m', rfl⟩
    | error f m' =>
      obtain ⟨e, n, g, o, hreaches, hvisit, hf, -⟩ := run_error_iff.1 hrun
      by_cases hg : g = .exhausted
      · subst hg hf
        exact .inr (.inr (.inl ⟨m', rfl⟩))
      · obtain ⟨ts, q, o, reason, hts, hreason, rfl⟩ := Unwinds.complete (r := .visit e) hvisit hg
        cases hreason with
        | @fault fault hgenuine =>
          rw [Task.blame_foldr_relabel] at hf
          subst hf
          exact .inr (.inl ⟨fault, _, m', rfl, hgenuine⟩)
        | exhausted => exact absurd (Task.foldr_relabel_of_blame (fun _ => rfl) ts) hg
        | unencodable hrel =>
          rw [Task.foldr_relabel_of_blame (fun _ => rfl)] at hf
          subst hf
          obtain ⟨d, p', hdepth, hitself⟩ := hts.origin
          exact .inr (.inr (.inr ⟨m', e, n, ts, q, o, d, rfl, hreaches, hts, hdepth,
            comparesSurrogate_of_failsItself hrel hitself⟩))
  · intro input hinput hexprs m' hrun
    have hwithin := evaluateAll_plain limits.rounds limits.depth hexprs (.freshMachine hinput)
    rw [run, Limits.evaluator] at hrun
    rw [hrun] at hwithin
    exact hwithin.1 rfl

/-- A program that compares strings and makes none of its own. -/
theorem endings_of_comparison :
    let e := Expr.call (.operator (.relation .less))
      [.literal (.string "a") ⟨1, 4, 3⟩, .literal (.string "b") ⟨1, 8, 7⟩] ⟨1, 2, 1⟩
    let p : Program := ⟨.start, [e]⟩
    Text.Encodable [] ∧ (∀ e ∈ p.exprs, ¬ e.Reads Native.char.name) ∧
      ∀ m', p.run .generous (freshMachine []) ≠ .error .unencodable m' := by
  intro e p
  have hinput : Text.Encodable [] := fun c hc => absurd hc List.not_mem_nil
  have hexprs : ∀ e ∈ p.exprs, ¬ e.Reads Native.char.name := by
    intro e' he' h
    obtain rfl : e' = e := List.mem_singleton.1 he'
    cases h with
    | here h => cases h
    | @part _ c hc h =>
      have hliteral : ∃ l pos, c = .literal l pos := by
        rcases List.mem_cons.1 hc with rfl | hc
        · exact ⟨_, _, rfl⟩
        · exact ⟨_, _, List.mem_singleton.1 hc⟩
      obtain ⟨l, pos, rfl⟩ := hliteral
      cases h with
      | here h => cases h
      | part hc h => cases hc
  exact ⟨hinput, hexprs, (endings .generous p).2 [] hinput hexprs⟩

/-- A program that compares a string made of a surrogate. -/
theorem surrogate_compared : ¬ ∀ (text : List Char) (p : Program) (limits : Limits) (input : Text),
    parse text = .ok p → ¬ Outcome.GivesUp (p.run limits (freshMachine input)) →
    (∃ v m, p.run limits (freshMachine input) = .ok v m) ∨
      ∃ e m, p.run limits (freshMachine input) = .error (.error e) m := by
  intro h
  let surrogate := Expr.call (.named "char") [.literal (.int 55296) ⟨1, 19, 18⟩] ⟨1, 14, 13⟩
  let p : Program := ⟨.start, [.call (.operator (.relation .equal))
    [.call (.named "string") [surrogate] ⟨1, 6, 5⟩, .literal (.int 1) ⟨1, 27, 26⟩] ⟨1, 2, 1⟩]⟩
  have hrun : p.run ⟨4, 1⟩ (freshMachine []) = .error .unencodable (freshMachine []) := rfl
  have hend := h "(== (string (char 55296)) 1)".toList p ⟨4, 1⟩ [] rfl
  rw [hrun] at hend
  rcases hend (by rintro ⟨m, ⟨⟩⟩) with ⟨v, m, ⟨⟩⟩ | ⟨e, m, ⟨⟩⟩

end Program

end SmallLisp

import SmallLisp.Proofs.Comparison
import SmallLisp.Proofs.Forms
import SmallLisp.Proofs.Prefixes
import SmallLisp.Proofs.Printing

/-!
# Rendered data reads back

The text of a value of units, integers, booleans and arrays is an expression of the language
(`Value.expr`). Three facts make the round trip: the text lays out the lexemes of this expression
(`Value.Readable.laid`), a text that does so is read as it (`Program.parse_of_laid`), and wherever it is
evaluated it yields the value and leaves everything as it was (`Value.Readable.evaluate_eq`). Main
statement: `Value.render_reads_back`.
-/

set_option autoImplicit false

namespace SmallLisp

open SmallLisp.Derivation

namespace Value

/-- The value is made of units, integers, booleans and arrays of such, at any nesting. -/
inductive Readable : Value → Prop
  | unit (i : Bool) : Readable (.unit i)
  | int (n : Int) (i : Bool) : Readable (.int n i)
  | bool (b i : Bool) : Readable (.bool b i)
  | array {items : List Value} (h : ∀ v ∈ items, Readable v) (i : Bool) : Readable (.array items i)

mutual

/-- The expression that the text of a readable value is. -/
def expr : Value → Expr
  | int n _ => .literal (.int n) .start
  | bool b _ => .literal (.bool b) .start
  | array items _ => .call (.operator .array) (itemExprs items) .start
  | _ => .unit .start

def itemExprs : List Value → List Expr
  | [] => []
  | v :: vs => v.expr :: itemExprs vs

end

mutual

/-- How deep arrays are nested in a value. -/
def nesting : Value → Nat
  | array items _ => nestingItems items + 1
  | _ => 0

def nestingItems : List Value → Nat
  | [] => 0
  | v :: vs => max v.nesting (nestingItems vs)

end

theorem Readable.functionFree {v : Value} (hv : v.Readable) : v.FunctionFree := by
  induction hv with
  | array _ i ih => exact functionFree_array.2 ih
  | _ => exact .of_no_items rfl rfl

end Value

/-! ## Layout -/

theorem Laid.blank {text : List Char} {xs : List Lexeme} (h : Laid text xs) :
    Laid (' ' :: text) xs := by
  have hblank : (CodePoint.ofChar ' ').isBlank = true := by decide
  cases h with
  | nil h => exact .nil (.blank hblank h)
  | cons hl hx hs h => exact .cons (.blank hblank hl) hx hs h

/-- One more lexeme, with nothing in front of it. -/
theorem Laid.lexeme {w tail : List Char} {x : Lexeme} {xs : List Lexeme} (hx : Spells w x)
    (hs : Lexeme.Separates tail) (h : Laid tail xs) : Laid (w ++ tail) (x :: xs) :=
  .cons (hx.layout tail) hx hs h

/-- In front of what is laid out and separates, the text lays out these lexemes too. -/
def LaysOut (text : List Char) (xs : List Lexeme) : Prop :=
  ∀ tail ys, Lexeme.Separates tail → Laid tail ys → Laid (text ++ tail) (xs ++ ys)

theorem Spells.laysOut {w : List Char} {x : Lexeme} (h : Spells w x) : LaysOut w [x] :=
  fun _ _ hs hlaid => hlaid.lexeme h hs

namespace Value

/-- The texts of the items of an array lay out their lexemes up to the end of the array. -/
theorem laid_items {vs : List Value}
    (h : ∀ v ∈ vs, ∃ text, v.render = Text.ofChars text ∧ LaysOut text v.expr.lexemes) :
    ∃ text, renderItems vs = Text.ofChars text ∧ ∀ tail ys, Laid (')' :: tail) ys →
      Laid (text ++ ')' :: tail) (Expr.lexemesAll (itemExprs vs) ++ ys) ∧
        Lexeme.Separates (text ++ ')' :: tail) := by
  induction vs with
  | nil =>
    refine ⟨[], rfl, fun tail ys hlaid => ⟨hlaid, ?_⟩⟩
    rintro _ ⟨rfl⟩
    decide
  | cons v vs ih =>
    obtain ⟨⟨first, hfirst, hlays⟩, hvs⟩ := List.forall_mem_cons.1 h
    obtain ⟨rest, hrest, hitems⟩ := ih hvs
    refine ⟨' ' :: (first ++ rest), ?_, fun tail ys hlaid => ⟨?_, ?_⟩⟩
    · rw [renderItems, hfirst, hrest]
      simp [Text.ofString, Text.ofChars]
    · obtain ⟨htail, hseparates⟩ := hitems tail ys hlaid
      have hmore := (hlays _ _ hseparates htail).blank
      simpa [itemExprs, Expr.lexemesAll] using hmore
    · rintro _ ⟨rfl⟩
      decide

/-- The text of a readable value lays out the lexemes of its expression. -/
theorem Readable.laid {v : Value} (hv : v.Readable) :
    ∃ text, v.render = Text.ofChars text ∧ LaysOut text v.expr.lexemes := by
  have hopening : Spells ['('] (.punct .openParen) := .punct .openParen
  have hclosing : Spells [')'] (.punct .closeParen) := .punct .closeParen
  have hat : Spells ['@'] (.punct .atSign) := .punct .atSign
  induction hv with
  | unit i =>
    refine ⟨['(', ')'], rfl, fun tail ys hs hlaid => ?_⟩
    have hform := (hlaid.lexeme hclosing hs).lexeme hopening (by rintro _ ⟨rfl⟩; decide)
    exact hform
  | int n i => exact ⟨(decimal n).toList, rfl, (spells_decimal n).laysOut⟩
  | bool b i =>
    cases b with
    | false => exact ⟨"false".toList, rfl, (Spells.keyword .falseWord).laysOut⟩
    | true => exact ⟨"true".toList, rfl, (Spells.keyword .trueWord).laysOut⟩
  | array _ i ih =>
    obtain ⟨text, htext, hitems⟩ := laid_items ih
    refine ⟨'(' :: '@' :: (text ++ [')']), ?_, fun tail ys hs hlaid => ?_⟩
    · rw [render, htext]
      simp [Text.ofString, Text.ofChars]
    · obtain ⟨hinner, hseparates⟩ := hitems tail _ (hlaid.lexeme hclosing hs)
      have hform := (hinner.lexeme hat hseparates).lexeme hopening (by rintro _ ⟨rfl⟩; decide)
      simpa [expr, Expr.lexemes, Callee.lexeme, Operator.lexeme] using hform

end Value

/-! ## Reading -/

/-- A text that lays out the lexemes of some expressions is read as these, up to places. -/
theorem Program.parse_of_laid {text : List Char} {es : List Expr}
    (h : Laid text (Expr.lexemesAll es)) :
    ∃ p, parse text = .ok p ∧ Expr.unplacedAll p.exprs = Expr.unplacedAll es := by
  obtain ⟨ts, hyields, hts⟩ := h.yields .start
  obtain ⟨ds, us, rfl, hus, hds⟩ := exists_derivations es (hts.trans (List.append_nil _).symm)
  obtain rfl : us = [] := List.map_eq_nil_iff.1 hus
  obtain ⟨-, eof, he, hr⟩ := (Cursor.yields_iff _ _).1 hyields
  have hread := Program.parse_map_exprs text
  rw [List.append_nil] at hr
  rw [show (Cursor.start text).results = _ from hr, Parser.finishAll_words he] at hread
  cases hp : parse text with
  | error e => rw [hp] at hread; cases hread
  | ok p =>
    rw [hp] at hread
    refine ⟨p, rfl, ?_⟩
    rw [show p.exprs = Derivation.exprs ds from Except.ok.inj hread, hds]

/-! ## Evaluation -/

/-- An expression whose visit leaves its frame empty and all else as it was leaves everything so. -/
theorem Evaluator.evaluate_of_visit {lower : Evaluator} {e : Expr} {m : Machine} {v : Value}
    (h : lower.visit e m.child = .ok v m.child) : lower.evaluate e m = .ok v m := by
  rw [evaluate, Eval.blaming, Eval.inChild_apply, h]
  rfl

/-- Expressions each of which yields a value and changes nothing yield all their values. -/
theorem Eval.mapM_of_forall₂ {α β : Type} {f : α → Eval β} {as : List α} {bs : List β}
    (h : List.Forall₂ (fun a b => ∀ m, f a m = .ok b m) as bs) (m : Machine) :
    as.mapM f m = .ok bs m := by
  induction h with
  | nil => rfl
  | @cons a b as bs hab _ ih =>
    rw [List.mapM_cons, bind_ok (hab m), bind_ok ih]
    rfl

namespace Expr

theorem unplaced_eq_unit {e : Expr} (h : e.unplaced = .unit .start) : ∃ pos, e = .unit pos := by
  cases e <;> simp [unplaced] at h ⊢

theorem unplaced_eq_literal {e : Expr} {l : Literal} (h : e.unplaced = .literal l .start) :
    ∃ pos, e = .literal l pos := by
  cases e <;> simp_all [unplaced]

theorem unplaced_eq_call {e : Expr} {f : Callee} {args : List Expr}
    (h : e.unplaced = .call f args .start) :
    ∃ es pos, e = .call f es pos ∧ unplacedAll es = args := by
  cases e <;> simp_all [unplaced]

end Expr

namespace Value

/-- What holds of each item and its expression holds of all items and theirs. -/
theorem forall₂_itemExprs {R : Expr → Value → Prop} : ∀ {vs : List Value} {es : List Expr},
    (∀ v ∈ vs, ∀ e : Expr, e.unplaced = v.expr → R e v.unmarked) →
      Expr.unplacedAll es = itemExprs vs → List.Forall₂ R es (unmarkedItems vs)
  | [], [], _, _ => .nil
  | v :: vs, e :: es, h, hes => by
    obtain ⟨hv, hvs⟩ := List.forall_mem_cons.1 h
    obtain ⟨he, hes⟩ := List.cons.inj hes
    exact .cons (hv e he) (forall₂_itemExprs hvs hes)
  | [], e :: es, _, hes => by cases hes
  | v :: vs, [], _, hes => by cases hes

theorem nesting_le_of_mem {v : Value} {vs : List Value} (h : v ∈ vs) :
    v.nesting ≤ nestingItems vs := by
  induction vs with
  | nil => cases h
  | cons w vs ih =>
    rw [nestingItems]
    obtain rfl | h := List.mem_cons.1 h
    · exact Nat.le_max_left _ _
    · exact Nat.le_trans (ih h) (Nat.le_max_right _ _)

/-- Wherever the expression of a readable value is evaluated, it yields the value, without any marks,
and leaves the machine as it was. -/
theorem Readable.evaluate_eq {v : Value} (hv : v.Readable) {rounds : Nat} :
    ∀ {e : Expr} {depth : Nat}, e.unplaced = v.expr → v.nesting ≤ depth → ∀ m,
      (Evaluator.ofDepth rounds (depth + 1)).evaluate e m = .ok v.unmarked m := by
  induction hv with
  | unit i =>
    intro e depth he _ m
    obtain ⟨pos, rfl⟩ := Expr.unplaced_eq_unit he
    exact Evaluator.evaluate_of_visit rfl
  | int n i =>
    intro e depth he _ m
    obtain ⟨pos, rfl⟩ := Expr.unplaced_eq_literal he
    exact Evaluator.evaluate_of_visit rfl
  | bool b i =>
    intro e depth he _ m
    obtain ⟨pos, rfl⟩ := Expr.unplaced_eq_literal he
    exact Evaluator.evaluate_of_visit rfl
  | @array items _ i ih =>
    intro e depth he hdepth m
    obtain ⟨es, pos, rfl, hes⟩ := Expr.unplaced_eq_call he
    cases depth with
    | zero => cases hdepth
    | succ depth =>
      have hdepth : nestingItems items ≤ depth := Nat.le_of_succ_le_succ hdepth
      have hitems : List.Forall₂
          (fun e w => ∀ m, (Evaluator.ofDepth rounds (depth + 1)).evaluate e m = .ok w m)
          es (unmarkedItems items) := by
        refine forall₂_itemExprs (fun v hv e he => ih v hv he ?_) hes
        exact Nat.le_trans (nesting_le_of_mem hv) hdepth
      exact Evaluator.evaluate_of_visit (Eval.bind_ok (Eval.mapM_of_forall₂ hitems _) _)

theorem ofChars_injective {cs ds : List Char} (h : Text.ofChars cs = Text.ofChars ds) : cs = ds := by
  refine List.map_injective_iff.2 (fun c d hcd => ?_) h
  exact Char.toNat_inj.1 (congrArg CodePoint.toNat hcd)

mutual

theorem unmarked_unmarked : ∀ v : Value, v.unmarked.unmarked = v.unmarked
  | unit _ | int _ _ | char _ _ | bool _ _ | string _ _ | function _ _ _ | native _ => rfl
  | array items _ => by rw [unmarked, unmarked, unmarkedItems_unmarkedItems items]

theorem unmarkedItems_unmarkedItems : ∀ vs : List Value,
    unmarkedItems (unmarkedItems vs) = unmarkedItems vs
  | [] => rfl
  | v :: vs => by
    rw [unmarkedItems, unmarkedItems, unmarked_unmarked v, unmarkedItems_unmarkedItems vs]

end

mutual

theorem unplaced_expr : ∀ v : Value, v.expr.unplaced = v.expr
  | unit _ | int _ _ | char _ _ | bool _ _ | string _ _ | function _ _ _ | native _ => rfl
  | array items _ => by rw [expr, Expr.unplaced, unplacedAll_itemExprs items]

theorem unplacedAll_itemExprs : ∀ vs : List Value,
    Expr.unplacedAll (itemExprs vs) = itemExprs vs
  | [] => rfl
  | v :: vs => by rw [itemExprs, Expr.unplacedAll, unplaced_expr v, unplacedAll_itemExprs vs]

end

/-- What the text of a readable value is read as, and what this comes to. -/
theorem Readable.exists_program {v : Value} (hv : v.Readable) : ∃ text p e,
    v.render = Text.ofChars text ∧ Program.parse text = .ok p ∧ p.exprs = [e] ∧
      ∀ (limits : Limits) m, v.nesting < limits.depth → p.run limits m = .ok v.unmarked m := by
  obtain ⟨text, htext, hlays⟩ := hv.laid
  have hlaid : Laid text (Expr.lexemesAll [v.expr]) := by
    have hend : Laid [] [] := .nil (.nothing (by simp))
    simpa [Expr.lexemesAll] using hlays [] [] (by simp [Lexeme.Separates]) hend
  obtain ⟨p, hp, hexprs⟩ := Program.parse_of_laid hlaid
  obtain ⟨e, he, hone⟩ : ∃ e, p.exprs = [e] ∧ e.unplaced = v.expr := by
    cases hes : p.exprs with
    | nil => rw [hes] at hexprs; cases hexprs
    | cons e es =>
      rw [hes] at hexprs
      obtain ⟨he, hes⟩ := List.cons.inj hexprs
      cases es with
      | nil => exact ⟨e, rfl, he.trans v.unplaced_expr⟩
      | cons => cases hes
  refine ⟨text, p, e, htext, hp, he, fun limits m hdepth => ?_⟩
  obtain ⟨depth, hlimit⟩ := Nat.exists_eq_succ_of_ne_zero (Nat.ne_of_gt (Nat.zero_lt_of_lt hdepth))
  have hvalue : limits.evaluator.evaluate e m = .ok v.unmarked m := by
    rw [Limits.evaluator, hlimit]
    exact hv.evaluate_eq hone (Nat.le_of_lt_succ (hlimit ▸ hdepth)) m
  rw [Program.run, he]
  exact Eval.bind_ok hvalue _

/-- **Rendered data reads back.** The text of a value of units, integers, booleans and arrays is a
program of one expression. Run on whatever machine, as deep as the arrays are nested, it yields the
same data and leaves the machine as it was: it prints and reads nothing, and binds and assigns nothing.
So different data have different texts. -/
theorem render_reads_back {v : Value} (hv : v.Readable) :
    (∃ text p e, v.render = Text.ofChars text ∧ Program.parse text = .ok p ∧ p.exprs = [e] ∧
      ∀ (limits : Limits) m, v.nesting < limits.depth →
        ∃ w, p.run limits m = .ok w m ∧ v.sameData w = true) ∧
    ∀ w : Value, w.Readable → w.render = v.render → v.sameData w = true := by
  obtain ⟨text, p, e, htext, hp, he, hrun⟩ := hv.exists_program
  refine ⟨⟨text, p, e, htext, hp, he, fun limits m hdepth => ⟨_, hrun limits m hdepth, ?_⟩⟩, ?_⟩
  · exact (sameData_iff v v.unmarked).2 ⟨v.unmarked_unmarked.symm, hv.functionFree⟩
  · intro w hw hrender
    obtain ⟨text', p', -, htext', hp', -, hrun'⟩ := hw.exists_program
    obtain rfl := ofChars_injective (htext'.symm.trans (hrender.trans htext))
    obtain rfl := Except.ok.inj (hp.symm.trans hp')
    -- one run of the one program yields both
    let limits : Limits := ⟨max v.nesting w.nesting + 1, 0⟩
    let m := Program.freshMachine []
    have hv' := hrun limits m (Nat.lt_succ_of_le (Nat.le_max_left _ _))
    have hw' := hrun' limits m (Nat.lt_succ_of_le (Nat.le_max_right _ _))
    rw [hv'] at hw'
    exact (sameData_iff v w).2 ⟨(EStateM.Result.ok.inj hw').1, hv.functionFree⟩

/-- A nested array with an empty one, a negative number and a marked item reads back as data. -/
theorem render_reads_back_nested :
    let v : Value := .array [.array [] false, .int (-5) false, .unit false, .bool true true] false
    v.Readable ∧ v.render = Text.ofString "(@ (@) -5 () true)" ∧ ∃ p e,
      Program.parse "(@ (@) -5 () true)".toList = .ok p ∧ p.exprs = [e] ∧
        ∃ w, p.run ⟨3, 0⟩ (Program.freshMachine []) = .ok w (Program.freshMachine []) ∧
          v.sameData w = true := by
  intro v
  have hv : v.Readable := by
    refine .array ?_ false
    simp only [List.forall_mem_cons]
    exact ⟨.array (by simp) false, .int (-5) false, .unit false, .bool true true, by simp⟩
  have hrender : v.render = Text.ofString "(@ (@) -5 () true)" := rfl
  obtain ⟨text, p, e, htext, hp, he, hrun⟩ := (render_reads_back hv).1
  obtain rfl := ofChars_injective (htext.symm.trans hrender)
  exact ⟨hv, hrender, p, e, hp, he, hrun ⟨3, 0⟩ _ (by decide)⟩

end Value

end SmallLisp

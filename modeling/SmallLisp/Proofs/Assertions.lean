import Mathlib.Data.List.Basic
import SmallLisp.Parser
import SmallLisp.Proofs.Grammar
import SmallLisp.Proofs.Mapping

/-!
# What evaluation takes for granted

Which tokens may begin an expression, and which may stand in the head of a call, can be said in tables of
their kinds; and what to do with a token or a value can be looked up by its kind. Here evaluation does
so, and asserts whatever it relies on: an `Asserting` computation has no answer at all where a token, a
value or a number of values turns up that it takes to be impossible.

* `Configuration.enter_isSome_iff`, `Configuration.enterForm_isSome_iff`: the reader admits what the
  tables say. `TokenKind.mem_callable_iff` relates them to the table of operators.
* `Evaluator.visitSite_eq`, `Evaluator.callValue_eq`: every assertion holds of what the reader makes of
  a token, and of what can be called. That includes the number of arguments, which is checked once more
  when they have been evaluated.
* `Value.renderAs?_kind`, `Value.numberAs?_kind`, `Value.addendAs?_eq`: what is looked up by the kind of
  a value fits its data.
-/

set_option autoImplicit false

namespace SmallLisp

/-! ## Tables -/

namespace TokenKind

/-- What an atom may be. -/
def atomic : List TokenKind := [.int, .string, .keyword .trueWord, .keyword .falseWord, .ident]

/-- What an expression may begin with. -/
def startsExpression : List TokenKind :=
  [.punct .openParen, .int, .ident, .string, .keyword .trueWord, .keyword .falseWord]

/-- What may stand in the head of a call. -/
def callable : List TokenKind :=
  [.punct .plus, .punct .minus, .punct .star, .punct .slash, .punct .equal, .punct .notEqual,
   .punct .less, .punct .lessEqual, .punct .greater, .punct .greaterEqual, .punct .bang, .punct .dot,
   .punct .atSign, .keyword .evalWord, .ident]

/-- What a form other than a call begins with, behind its parenthesis. -/
def keywordForms : List TokenKind :=
  [.keyword .ifWord, .keyword .functionWord, .keyword .letWord, .punct .assign, .keyword .whileWord,
   .keyword .forWord]

end TokenKind

/-- What a kind of token does in the head of a call, names apart. -/
def Operator.table : List (TokenKind × Operator) :=
  [(.punct .plus, .add), (.punct .minus, .subtract), (.punct .star, .multiply),
   (.punct .slash, .divide), (.punct .bang, .not), (.punct .dot, .index), (.punct .atSign, .array),
   (.keyword .evalWord, .sequence), (.punct .equal, .relation .equal),
   (.punct .notEqual, .relation .notEqual), (.punct .less, .relation .less),
   (.punct .lessEqual, .relation .lessEqual), (.punct .greater, .relation .greater),
   (.punct .greaterEqual, .relation .greaterEqual)]

namespace TokenKind

/-- A kind that may stand in the head of a call is that of names or has an entry in the table of
operators. -/
theorem mem_callable_iff (k : TokenKind) :
    k ∈ callable ↔ k = .ident ∨ ∃ op, Operator.table.lookup k = some op := by
  simp only [← Option.isSome_iff_exists]
  exact forall_of_all (P := fun k => k ∈ callable ↔ k = .ident ∨ (Operator.table.lookup k).isSome)
    (by decide) k

theorem mem_startsExpression_iff (k : TokenKind) :
    k ∈ startsExpression ↔ k = .punct .openParen ∨ k ∈ atomic :=
  forall_of_all (P := fun k => k ∈ startsExpression ↔ k = .punct .openParen ∨ k ∈ atomic)
    (by decide) k

end TokenKind

/-- The table has what an operator is written as. -/
theorem Operator.lookup_table (l : Lexeme) : table.lookup l.kind = ofLexeme? l := by
  cases l with
  | punct p => cases p <;> rfl
  | keyword k => cases k <;> rfl
  | _ => rfl

theorem Callee.isSome_ofLexeme?_iff (l : Lexeme) :
    (ofLexeme? l).isSome ↔ l.kind ∈ TokenKind.callable := by
  cases l with
  | punct p => cases p <;> decide
  | keyword k => cases k <;> decide
  | ident name => simp [ofLexeme?, Lexeme.kind, TokenKind.callable]
  | _ => simp [ofLexeme?, Operator.ofLexeme?, Lexeme.kind, TokenKind.callable]

theorem Expr.isSome_ofToken?_iff (t : Token) : (ofToken? t).isSome ↔ t.kind ∈ TokenKind.atomic := by
  obtain ⟨l, pos⟩ := t
  show _ ↔ l.kind ∈ TokenKind.atomic
  cases l with
  | punct p => cases p <;> simp [ofToken?, Literal.ofLexeme?, Lexeme.kind, TokenKind.atomic]
  | keyword k => cases k <;> simp [ofToken?, Literal.ofLexeme?, Lexeme.kind, TokenKind.atomic]
  | _ => simp [ofToken?, Literal.ofLexeme?, Lexeme.kind, TokenKind.atomic]

namespace Configuration

/-- An expression may begin with what the table says. -/
theorem enter_isSome_iff (outer : List Context) (t : Token) :
    (enter outer t).isSome ↔ t.kind ∈ TokenKind.startsExpression := by
  rw [TokenKind.mem_startsExpression_iff, ← Expr.isSome_ofToken?_iff, enter]
  have hkind : t.lexeme = .punct .openParen ↔ t.kind = .punct .openParen := by
    obtain ⟨l, pos⟩ := t
    show l = _ ↔ l.kind = _
    cases l <;> simp [Lexeme.kind]
  by_cases hopen : t.lexeme = .punct .openParen
  · rw [if_pos hopen]
    exact ⟨fun _ => .inl (hkind.1 hopen), fun _ => rfl⟩
  · rw [if_neg hopen, Option.isSome_map]
    exact ⟨.inr, fun h => h.resolve_left (mt hkind.2 hopen)⟩

/-- What follows an opening parenthesis closes it, begins a form or is called. -/
theorem enterForm_isSome_iff (opened : Position) (outer : List Context) (t : Token) :
    (enterForm opened outer t).isSome ↔
      t.kind = .punct .closeParen ∨ t.kind ∈ TokenKind.keywordForms ∨
        t.kind ∈ TokenKind.callable := by
  obtain ⟨l, pos⟩ := t
  show _ ↔ l.kind = _ ∨ l.kind ∈ _ ∨ l.kind ∈ _
  rw [← Callee.isSome_ofLexeme?_iff]
  cases l with
  | punct p =>
    cases p <;>
      simp [enterForm, Callee.ofLexeme?, Operator.ofLexeme?, Lexeme.kind, TokenKind.keywordForms]
  | keyword k =>
    cases k <;>
      simp [enterForm, Callee.ofLexeme?, Operator.ofLexeme?, Lexeme.kind, TokenKind.keywordForms]
  | _ => simp [enterForm, Callee.ofLexeme?, Operator.ofLexeme?, Lexeme.kind, TokenKind.keywordForms]

end Configuration

/-! ## Computations that assert something -/

/-- A computation that has no answer where it comes upon what it takes to be impossible. -/
abbrev Asserting := OptionT Eval

namespace Asserting

variable {α β : Type}

/-- A computation that asserts nothing. -/
def of (x : Eval α) : Asserting α := OptionT.lift x

@[simp] theorem of_pure (a : α) : of (pure a) = pure a := rfl

@[simp] theorem of_bind (x : Eval α) (f : α → Eval β) :
    of (x >>= f) = of x >>= fun a => of (f a) := by
  apply OptionT.ext
  simp [of]

@[simp] theorem of_map (f : α → β) (x : Eval α) : of (f <$> x) = f <$> of x := by
  rw [← bind_pure_comp, ← bind_pure_comp, of_bind]
  rfl

/-- What follows a computation need not assert anything that fails but on values that this comes to. -/
theorem of_bind_eq {x : Eval α} {f : α → Asserting β} {g : α → Eval β}
    (h : ∀ a m n, x m = .ok a n → f a = of (g a)) : of x >>= f = of (x >>= g) := by
  apply OptionT.ext
  funext m
  rw [OptionT.run_bind, Option.elimM]
  cases hx : x m with
  | ok a n =>
    have hrun : (of x).run m = .ok (some a) n := Eval.bind_ok hx _
    rw [Eval.bind_ok hrun]
    show (f a).run n = ((x >>= g) >>= fun b => pure (some b)) m
    rw [bind_assoc, Eval.bind_ok hx, h a m n hx]
    rfl
  | error e n =>
    have hrun : (of x).run m = .error e n := Eval.bind_error hx _
    have hbind : (x >>= g) m = .error e n := Eval.bind_error hx g
    rw [Eval.bind_error hrun]
    exact (Eval.bind_error hbind _).symm

/-- Asserts a condition. -/
def ensure (holds : Bool) : Asserting Unit := if holds then pure () else failure

/-- The only item of a list. -/
def one : List α → Asserting α
  | [a] => pure a
  | _ => failure

/-- The two items of a list. -/
def two : List α → Asserting (α × α)
  | [a, b] => pure (a, b)
  | _ => failure

/-- The first item of a list and the rest. -/
def first : List α → Asserting (α × List α)
  | a :: as => pure (a, as)
  | [] => failure

end Asserting

/-! ## Dispatch on tokens -/

/-- What is dispatched on a token: an atom on its own, a call on its head. -/
inductive Site
  | atom (t : Token)
  | call (head : Token) (args : List Expr)

namespace Site

def token : Site → Token
  | atom t => t
  | call head _ => head

/-- The expression that the reader makes of it. -/
def expr? : Site → Option Expr
  | atom t => Expr.ofToken? t
  | call head args =>
    (Callee.ofLexeme? head.lexeme).map fun callee => .call callee args head.position

/-- The tables have the kind of the token: an atom may be one, and a call may have it as its head, where
it is that of names or has an entry. -/
def Listed : Site → Prop
  | atom t => t.kind ∈ TokenKind.atomic
  | call head _ => head.kind ∈ TokenKind.callable ∧
      (head.kind ≠ .ident → ∃ op, Operator.table.lookup head.kind = some op)

/-- What the reader makes an expression of is in the tables. -/
theorem listed_of_expr? {s : Site} {e : Expr} (h : s.expr? = some e) : s.Listed := by
  cases s with
  | atom t => exact (Expr.isSome_ofToken?_iff t).1 (Option.isSome_iff_exists.2 ⟨e, h⟩)
  | call head args =>
    obtain ⟨callee, hcallee, -⟩ := Option.map_eq_some_iff.1 h
    have hmem : head.kind ∈ TokenKind.callable :=
      (Callee.isSome_ofLexeme?_iff head.lexeme).1 (Option.isSome_iff_exists.2 ⟨callee, hcallee⟩)
    exact ⟨hmem, fun hne => ((TokenKind.mem_callable_iff _).1 hmem).resolve_left hne⟩

end Site

/-- What can be called. -/
def Kind.callable : List Kind := [.function, .native]

/-- How many arguments a value accepts that is taken to be a function. -/
def Value.arity? : Value → Option Arity
  | native f => some f.arity
  | function params _ _ => some (.exactly params.length)
  | _ => none

namespace Value

theorem kind_mem_callable_iff (v : Value) : v.kind ∈ Kind.callable ↔ v.callable?.isSome := by
  cases v <;> simp [kind, callable?, Kind.callable]

theorem arity?_eq (v : Value) : v.arity? = v.callable?.map Callable.arity := by
  cases v <;> rfl

end Value

namespace Evaluator

variable (lower : Evaluator)

/-- Evaluates an atom by its token. -/
def visitAtom (t : Token) : Asserting Value :=
  match t.lexeme with
  | .int n => return .int n
  | .string content => return .string (Text.ofString content)
  | .keyword .trueWord => return .bool true
  | .keyword .falseWord => return .bool false
  | .ident x => .of do Eval.ofFault ((← Eval.scope).lookup x)
  | _ => failure

/-- Refuses to apply an operator to a number of operands that it does not accept. -/
def checkOperands (op : Operator) (count : Nat) : Eval Unit :=
  if op.arity.accepts count then pure ()
  else throw (.ofFault (.wrongOperands op count))

theorem accepts_of_checkCount {name : String} {arity : Arity} {count : Nat} {u : Unit} {m n : Machine}
    (h : checkCount name arity count m = .ok u n) : arity.accepts count = true := by
  rw [checkCount_apply] at h
  split at h
  · assumption
  · cases h

/-- The values of some expressions, evaluated in order. -/
def evaluateEach (es : List Expr) : Eval (List Value) := es.mapM lower.evaluate

/-- Applies an operator to operands whose number has been checked. -/
def visitOperands (op : Operator) (operands : List Expr) : Asserting Value :=
  match op with
  | .add => .of (lower.combine Value.add .unit operands)
  | .subtract => do
    let (operand, rest) ← Asserting.first operands
    .of do lower.combine Value.subtract (← lower.evaluate operand) rest
  | .multiply => .of (lower.combine Value.multiply (.int 1) operands)
  | .divide => do
    let (operand, rest) ← Asserting.first operands
    .of do lower.combine Value.divide (← lower.evaluate operand) rest
  | .relation r => do
    let (left, right) ← Asserting.two (← .of (lower.evaluateEach operands))
    .of (Eval.ofExcept (left.relate r right))
  | .not => do
    let operand ← Asserting.one operands
    .of do Eval.ofFault (← lower.evaluate operand).negate
  | .index => do
    let (subject, position) ← Asserting.two (← .of (lower.evaluateEach operands))
    .of (Eval.ofFault (subject.index position))
  | .array => .of do return .array (← lower.evaluateEach operands)
  | .sequence => .of (lower.evaluateAll operands)

def visitOperator (op : Operator) (operands : List Expr) : Asserting Value := do
  .of (checkOperands op operands.length)
  lower.visitOperands op operands

/-- Calls a value that is taken to be a function. -/
def callValue (v : Value) (args : List Value) : Asserting Value :=
  match v with
  | .native f => .of do
    checkCount f.name f.arity args.length
    f.perform lower.call args
  | .function params body _ => .of do
    checkCount "function" (.exactly params.length) args.length
    lower.enter params body args
  | _ => failure

/-- Calls the function that a name stands for. The arguments may do anything when they are evaluated,
but their number is then still one that this function accepts. -/
def visitNamed (name : String) (args : List Expr) : Asserting Value := do
  match (← .of Eval.scope).value? name with
  | none => .of (throw (.ofFault (.noFunction name)))
  | some v =>
    if v.kind ∈ Kind.callable then
      match v.arity? with
      | none => failure
      | some arity =>
        .of (checkCount name arity args.length)
        let values ← .of (lower.evaluateEach args)
        Asserting.ensure (arity.accepts values.length)
        lower.callValue v values
    else .of (throw (.ofFault (.notCallable name)))

/-- Evaluates a call by the token in its head. -/
def visitCall (head : Token) (args : List Expr) : Asserting Value :=
  match head.lexeme with
  | .ident name => lower.visitNamed name args
  | l =>
    match Operator.table.lookup l.kind with
    | some op => lower.visitOperator op args
    | none => failure

def visitSite : Site → Asserting Value
  | .atom t => visitAtom t
  | .call head args => lower.visitCall head args

/-! ### The assertions hold -/

theorem visitOperands_eq {op : Operator} {operands : List Expr}
    (h : op.arity.accepts operands.length = true) :
    lower.visitOperands op operands = .of (lower.operate op operands) := by
  cases op with
  | add =>
    obtain ⟨e, es, rfl⟩ := List.exists_cons_of_length_pos (Arity.accepts_atLeast.1 h)
    rfl
  | subtract | divide =>
    have hlength := Arity.accepts_atLeast.1 h
    match operands, hlength with
    | first :: second :: rest, _ => simp [visitOperands, operate, Asserting.first]
  | multiply => rfl
  | relation r =>
    obtain ⟨left, right, rfl⟩ := List.length_eq_two.1 (Arity.accepts_exactly.1 h)
    simp [visitOperands, operate, evaluateEach, Asserting.two]
  | not =>
    obtain ⟨operand, rfl⟩ := List.length_eq_one_iff.1 (Arity.accepts_exactly.1 h)
    simp [visitOperands, operate, Asserting.one]
  | index =>
    obtain ⟨subject, position, rfl⟩ := List.length_eq_two.1 (Arity.accepts_exactly.1 h)
    simp [visitOperands, operate, evaluateEach, Asserting.two]
  | array => rfl
  | sequence =>
    obtain ⟨e, es, rfl⟩ := List.exists_cons_of_length_pos (Arity.accepts_atLeast.1 h)
    rfl

theorem visitOperator_eq (op : Operator) (operands : List Expr) :
    lower.visitOperator op operands = .of (lower.operate op operands) := by
  rw [visitOperator, checkOperands]
  cases h : op.arity.accepts operands.length with
  | true => simp [lower.visitOperands_eq h]
  | false =>
    rw [operate_refused lower h]
    rfl

theorem callValue_eq {v : Value} {callee : Callable} (h : v.callable? = some callee)
    (args : List Value) : lower.callValue v args = .of (lower.callNext callee args) := by
  rw [callNext_eq]
  cases v <;> cases h <;> rfl

theorem visitNamed_eq (name : String) (args : List Expr) :
    lower.visitNamed name args = .of (lower.callNamed name args) := by
  have hcall : lower.callNamed name args =
      Eval.scope >>= fun s => lower.invokeNamed name args (s.value? name) :=
    funext fun m => lower.callNamed_apply name args m
  rw [hcall, visitNamed, Asserting.of_bind]
  congr 1
  funext s
  cases s.value? name with
  | none => rfl
  | some v =>
    simp only [Value.kind_mem_callable_iff, Value.arity?_eq, invokeNamed]
    cases hcallee : v.callable? with
    | none => rfl
    | some callee =>
      simp only [Option.isSome_some, if_true, Option.map_some]
      refine Asserting.of_bind_eq fun _ _ _ hcheck => ?_
      refine Asserting.of_bind_eq fun values _ _ hvalues => ?_
      -- There are as many values as there were arguments when their number was checked.
      rw [← Eval.length_of_mapM hvalues, accepts_of_checkCount hcheck, lower.callValue_eq hcallee]
      rfl

theorem visitCall_eq {head : Token} {callee : Callee} (h : Callee.ofLexeme? head.lexeme = some callee)
    (args : List Expr) (rounds : Nat) : lower.visitCall head args =
      .of (lower.visitNext rounds (.call callee args head.position)) := by
  rw [visitCall, ← Callee.lexeme_eq_iff.2 h]
  cases callee with
  | named name => exact lower.visitNamed_eq name args
  | operator op =>
    have hentry : Operator.table.lookup op.lexeme.kind = some op := by
      rw [Operator.lookup_table, Operator.ofLexeme?_lexeme]
    rw [Callee.lexeme]
    split
    · rename_i name hname
      rw [hname] at hentry
      cases hentry
    · rw [hentry]
      exact lower.visitOperator_eq op args

theorem visitAtom_eq {t : Token} {e : Expr} (h : Expr.ofToken? t = some e) (rounds : Nat) :
    visitAtom t = .of (lower.visitNext rounds e) := by
  obtain ⟨l, pos⟩ := t
  cases l with
  | ident x => cases h; rfl
  | int n => cases h; rfl
  | string content => cases h; rfl
  | keyword k => cases k <;> cases h <;> rfl
  | punct p => cases h
  | eof => cases h

/-- Whatever the reader makes of a token is evaluated without an assertion that fails. -/
theorem visitSite_eq {s : Site} {e : Expr} (h : s.expr? = some e) (rounds : Nat) :
    lower.visitSite s = .of (lower.visitNext rounds e) := by
  cases s with
  | atom t => exact lower.visitAtom_eq h rounds
  | call head args =>
    obtain ⟨callee, hcallee, rfl⟩ := Option.map_eq_some_iff.1 h
    exact lower.visitCall_eq hcallee args rounds

end Evaluator

/-! ## Dispatch on kinds of values -/

namespace Value

mutual

/-- The text of a value that is taken to be of this kind. -/
def renderAs? : Kind → Value → Option Text
  | .unit, _ => some (Text.ofString "()")
  | .int, int n _ => some (Text.ofString (decimal n))
  | .char, char c _ => some [c]
  | .bool, bool b _ => some (Text.ofString (if b then "true" else "false"))
  | .string, string t _ => some t
  | .array, array items _ =>
    (renderEach? items).map fun t => Text.ofString "(@" ++ t ++ Text.ofString ")"
  | .function, _ => some (Text.ofString "<function>")
  | .native, native f => some (Text.ofString (Native.display f.name))
  | _, _ => none

/-- The texts of some values, each behind a space, by their kinds. -/
def renderEach? : List Value → Option Text
  | [] => some []
  | v :: vs => do return Text.ofString " " ++ ((← renderAs? v.kind v) ++ (← renderEach? vs))

end

/-- The number that a value of this kind stands for in arithmetic. -/
def numberAs? (operation : String) : Kind → Value → Option (Except Fault Int)
  | .int, int n _ => some (.ok n)
  | .bool, bool b _ => some (.ok (bit b))
  | .int, _ | .bool, _ => none
  | kind, _ => some (.error (.notNumber operation kind))

/-- What an operand counts for when it is added to a number: the number that is in it once it has been
converted to an integer, if there is such a conversion. -/
def addendAs? (v : Value) : Option (Option Int) :=
  match v.coerce .int with
  | .ok (some (int n _)) => some (some n)
  | .ok none => some none
  | _ => none

mutual

theorem renderAs?_kind : ∀ v : Value, renderAs? v.kind v = some v.render
  | unit _ | int _ _ | char _ _ | bool _ _ | string _ _ | function _ _ _ | native _ => rfl
  | array items _ => by
    rw [kind, renderAs?, renderEach?_eq items, render]
    rfl

theorem renderEach?_eq : ∀ vs : List Value, renderEach? vs = some (renderItems vs)
  | [] => rfl
  | v :: vs => by
    rw [renderEach?, renderAs?_kind v, renderEach?_eq vs, renderItems]
    rfl

end

theorem numberAs?_kind (operation : String) (v : Value) :
    numberAs? operation v.kind v = some (v.number operation) := by
  cases v <;> rfl

theorem addendAs?_eq (v : Value) : v.addendAs? = some v.addend? := by
  cases v <;> rfl

end Value

end SmallLisp

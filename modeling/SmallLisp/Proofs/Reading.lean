import SmallLisp.Parser
import SmallLisp.Proofs.Grammar

/-!
# The reader and the grammar

The reader takes one token a step. `Progress.feed` is what some tokens lead to. Completeness: the
word of a derivation leads from a place for an expression to the derived expression in that place
(`feed_word`). Soundness: a run that comes to an end has read a word of the grammar in each such
place, by induction on the number of tokens (`reads_all`). Main statement: `Parser.Faces.program_iff`,
the reader accepts exactly the words of the grammar, each of which has one derivation, and returns what
is derived.
-/

set_option autoImplicit false

namespace SmallLisp

open Token SmallLisp.Derivation

/-- Where some tokens lead; none if one of them is refused or comes after the end. -/
def Progress.feed : Progress → List Token → Option Progress
  | p, [] => some p
  | .done _, _ :: _ => none
  | .reading c, t :: ts => (c.step t).bind fun p => p.feed ts

namespace Progress

@[simp] theorem feed_nil (p : Progress) : p.feed [] = some p := by cases p <;> rfl

@[simp] theorem feed_reading_cons (c : Configuration) (t : Token) (ts : List Token) :
    (reading c).feed (t :: ts) = (c.step t).bind fun p => p.feed ts := rfl

@[simp] theorem complete_cons (e : Expr) (ctx : Context) (outer : List Context) :
    complete e (ctx :: outer) = reading (ctx.resume e outer) := rfl

end Progress

/-- The first token of an expression is neither the end of a form nor the end of the text, and is a
name only if the expression is one. -/
theorem Derivation.word_eq_cons (d : Derivation) :
    ∃ t ts, d.word = t :: ts ∧ t.lexeme ≠ .eof ∧ t.lexeme ≠ .punct .closeParen ∧
      ∀ x, t.lexeme = .ident x → ∃ pos, d = .name (x, pos) := by
  cases d with
  | literal l pos =>
    refine ⟨_, _, rfl, ?_, ?_, fun x hx => ?_⟩
    · simp [Literal.lexeme_eq_iff, Literal.ofLexeme?]
    · simp [Literal.lexeme_eq_iff, Literal.ofLexeme?]
    · simp [Literal.lexeme_eq_iff, Literal.ofLexeme?] at hx
  | name x =>
    refine ⟨_, _, rfl, by simp, by simp, fun y hy => ⟨x.2, ?_⟩⟩
    cases hy
    rfl
  | _ => exact ⟨_, _, rfl, by simp, by simp, by simp⟩

/-! ## Completeness -/

namespace Configuration

theorem enter_opening (outer : List Context) (pos : Position) :
    enter outer (opening pos) = some (.reading ⟨.head pos, outer⟩) := by
  simp [enter]

theorem enter_ident (outer : List Context) (x : String × Position) :
    enter outer (ident x) = some (.complete (.name x.1 x.2) outer) := by
  simp [enter, Expr.ofToken?]

theorem enter_literal (outer : List Context) (l : Literal) (pos : Position) :
    enter outer ⟨l.lexeme, pos⟩ = some (.complete (.literal l pos) outer) := by
  cases l with
  | bool b => cases b <;> rfl
  | _ => rfl

theorem enterForm_callee (opened : Position) (outer : List Context) (f : Callee)
    (pos : Position) :
    enterForm opened outer ⟨f.lexeme, pos⟩ = some (.reading ⟨.argument f [] pos, outer⟩) := by
  cases f with
  | named x => rfl
  | operator o =>
    cases o with
    | relation r => cases r <;> rfl
    | _ => rfl

theorem closeOr_closing (e : Expr) (ctx : Context) (outer : List Context) (pos : Position) :
    closeOr e ctx outer (closing pos) = some (.complete e outer) := by
  simp [closeOr]

theorem closeOr_other {t : Token} (h : t.lexeme ≠ .punct .closeParen) (e : Expr) (ctx : Context)
    (outer : List Context) : closeOr e ctx outer t = enter (ctx :: outer) t := by
  simp [closeOr, h]

theorem step_parameter_ident (params : List (String × Position)) (pos : Position)
    (outer : List Context) (x : String × Position) :
    step ⟨.parameter params pos, outer⟩ (ident x) =
      some (.reading ⟨.parameter (x :: params) pos, outer⟩) := by
  cases params <;> rfl

theorem step_parameter_other {t : Token} (hc : t.lexeme ≠ .punct .closeParen)
    (hx : ∀ x, t.lexeme ≠ .ident x) (params : List (String × Position)) (pos : Position)
    (outer : List Context) :
    step ⟨.parameter params pos, outer⟩ t = enter (.functionBody params pos :: outer) t := by
  unfold step
  split <;> simp_all

end Configuration

namespace Progress

open SmallLisp.Configuration

/-- An expression is read alike wherever its first token is taken as the first of an expression. -/
theorem feed_word_of_step {c : Configuration} {d : Derivation} (outer : List Context)
    (expected : String) (r : List Token)
    (h : ∀ t ts, d.word = t :: ts → t.lexeme ≠ .punct .closeParen → c.step t = enter outer t) :
    (reading c).feed (d.word ++ r) =
      (reading ⟨.operand expected, outer⟩).feed (d.word ++ r) := by
  obtain ⟨t, ts, hw, -, hc, -⟩ := d.word_eq_cons
  rw [hw, List.cons_append, feed_reading_cons, feed_reading_cons, h t ts hw hc]
  rfl

theorem feed_argument (d : Derivation) (f : Callee) (before : List Expr) (pos : Position)
    (outer : List Context) (r : List Token) :
    (reading ⟨.argument f before pos, outer⟩).feed (d.word ++ r) =
      (reading ⟨.operand "", .argument f before pos :: outer⟩).feed (d.word ++ r) := by
  apply feed_word_of_step
  intro t ts _ h
  exact closeOr_other h _ _ _

theorem feed_initializer (d : Derivation) (x : String) (pos : Position) (outer : List Context)
    (r : List Token) :
    (reading ⟨.initializer x pos, outer⟩).feed (d.word ++ r) =
      (reading ⟨.operand "", .initializer x pos :: outer⟩).feed (d.word ++ r) := by
  apply feed_word_of_step
  intro t ts _ h
  exact closeOr_other h _ _ _

theorem feed_alternative (d : Derivation) (cond yes : Expr) (pos : Position)
    (outer : List Context) (r : List Token) :
    (reading ⟨.alternative cond yes pos, outer⟩).feed (d.word ++ r) =
      (reading ⟨.operand "", .ifAlternative cond yes pos :: outer⟩).feed (d.word ++ r) := by
  apply feed_word_of_step
  intro t ts _ h
  exact closeOr_other h _ _ _

theorem feed_params (params ps : List (String × Position)) (pos : Position)
    (outer : List Context) (r : List Token) :
    (reading ⟨.parameter params pos, outer⟩).feed (ps.map ident ++ r) =
      (reading ⟨.parameter (ps.reverse ++ params) pos, outer⟩).feed r := by
  induction ps generalizing params with
  | nil => rfl
  | cons x ps ih =>
    simp only [List.map_cons, List.cons_append, feed_reading_cons, step_parameter_ident,
      Option.bind_some, ih, List.reverse_cons, List.append_assoc, List.nil_append]

/-- The body of a function is read alike whether or not it is a name, which is at first taken as one
more parameter. -/
theorem feed_body {b : Derivation} (ps : List (String × Position)) (pos c : Position)
    (outer : List Context) (r : List Token)
    (hb : ∀ expected outer r, (reading ⟨.operand expected, outer⟩).feed (b.word ++ r) =
      (complete b.expr outer).feed r) :
    (reading ⟨.parameter ps.reverse pos, outer⟩).feed (b.word ++ closing c :: r) =
      (complete (.function (ps.map (·.1)) b.expr pos) outer).feed r := by
  have hn : names ps.reverse = ps.map (·.1) := by simp [names]
  by_cases hx : ∃ x, b = .name x
  · obtain ⟨x, rfl⟩ := hx
    simp only [word, List.cons_append, List.nil_append, feed_reading_cons, step_parameter_ident,
      Option.bind_some, Derivation.expr]
    rw [← hn]
    rfl
  · rw [feed_word_of_step (.functionBody ps.reverse pos :: outer) "", hb, complete_cons,
      Context.resume, hn]
    · rfl
    · intro t ts hw hc
      refine step_parameter_other hc (fun x h => hx ?_) _ _ _
      obtain ⟨t', ts', hw', -, -, hname⟩ := b.word_eq_cons
      obtain ⟨rfl, -⟩ := List.cons.inj (hw.symm.trans hw')
      obtain ⟨xpos, rfl⟩ := hname x h
      exact ⟨_, rfl⟩

mutual

/-- The word of a derivation leads to the expression in its place. -/
theorem feed_word : ∀ (d : Derivation) (expected : String) (outer : List Context)
    (r : List Token), (reading ⟨.operand expected, outer⟩).feed (d.word ++ r) =
      (complete d.expr outer).feed r
  | .literal l pos, expected, outer, r => by
    simp [word, Derivation.expr, step, enter_literal]
  | .name x, expected, outer, r => by
    simp [word, Derivation.expr, step, enter_ident]
  | .unit o c, expected, outer, r => by
    simp [word, Derivation.expr, step, enter_opening, enterForm]
  | .call o f p args c, expected, outer, r => by
    simp only [word, List.cons_append, List.append_assoc, feed_reading_cons, step, enter_opening,
      enterForm_callee, Option.bind_some, feed_words args, closeOr_closing, List.nil_append,
      Derivation.expr, List.append_nil, List.reverse_reverse]
  | .function o p ps b c, expected, outer, r => by
    simp only [word, List.cons_append, List.append_assoc, feed_reading_cons, step, enter_opening,
      enterForm, Option.bind_some, feed_params, List.append_nil, List.nil_append, Derivation.expr]
    exact feed_body ps p c outer r fun expected outer r => feed_word b expected outer r
  | .ifThen o p a b c, expected, outer, r => by
    simp only [word, List.cons_append, List.append_assoc, feed_reading_cons, step, enter_opening,
      enterForm, Option.bind_some, feed_word a, feed_word b, complete_cons, Context.resume,
      closeOr_closing, List.nil_append, Derivation.expr]
  | .ifThenElse o p a b e c, expected, outer, r => by
    simp only [word, List.cons_append, List.append_assoc, feed_reading_cons, step, enter_opening,
      enterForm, Option.bind_some, feed_word a, feed_word b, complete_cons, Context.resume]
    rw [feed_alternative, feed_word e]
    rfl
  | .declare o p x c, expected, outer, r => by
    simp [word, Derivation.expr, step, enter_opening, enterForm, closeOr_closing]
  | .declareAs o p x a c, expected, outer, r => by
    simp only [word, List.cons_append, List.append_assoc, feed_reading_cons, step, enter_opening,
      enterForm, Option.bind_some]
    rw [feed_initializer, feed_word a]
    rfl
  | .assign o p x a c, expected, outer, r => by
    simp only [word, List.cons_append, List.append_assoc, feed_reading_cons, step, enter_opening,
      enterForm, Option.bind_some, feed_word a]
    rfl
  | .whileLoop o p a b c, expected, outer, r => by
    simp only [word, List.cons_append, List.append_assoc, feed_reading_cons, step, enter_opening,
      enterForm, Option.bind_some, feed_word a, feed_word b, complete_cons, Context.resume]
    rfl
  | .forLoop o p a b e f c, expected, outer, r => by
    simp only [word, List.cons_append, List.append_assoc, feed_reading_cons, step, enter_opening,
      enterForm, Option.bind_some, feed_word a, feed_word b, feed_word e, feed_word f,
      complete_cons, Context.resume]
    rfl

theorem feed_words : ∀ (ds : List Derivation) (f : Callee) (before : List Expr)
    (pos : Position) (outer : List Context) (r : List Token),
    (reading ⟨.argument f before pos, outer⟩).feed (words ds ++ r) =
      (reading ⟨.argument f ((exprs ds).reverse ++ before) pos, outer⟩).feed r
  | [], f, before, pos, outer, r => rfl
  | d :: ds, f, before, pos, outer, r => by
    rw [words, List.append_assoc, feed_argument, feed_word d, complete_cons, Context.resume,
      feed_words ds]
    simp [exprs]

end

/-! ## Soundness -/

theorem enter_eq_some {outer : List Context} {t : Token} {p : Progress}
    (h : enter outer t = some p) :
    (∃ pos, t = opening pos ∧ p = reading ⟨.head pos, outer⟩) ∨
      ∃ d : Derivation, d.word = [t] ∧ p = complete d.expr outer := by
  obtain ⟨x, pos⟩ := t
  unfold enter at h
  split at h
  · rename_i hx
    cases hx
    exact .inl ⟨pos, rfl, (Option.some.inj h).symm⟩
  · obtain ⟨e, he, rfl⟩ := Option.map_eq_some_iff.1 h
    unfold Expr.ofToken? at he
    split at he
    · rename_i y hy
      cases hy
      cases he
      exact .inr ⟨.name (y, pos), rfl, rfl⟩
    · obtain ⟨l, hl, rfl⟩ := Option.map_eq_some_iff.1 he
      refine .inr ⟨.literal l pos, ?_, rfl⟩
      rw [word, Literal.lexeme_eq_iff.2 hl]

theorem closing_of_feed {e x : Expr} {expected : String} {note : Option String}
    {outer : List Context} {ts : List Token}
    (h : (reading ⟨.closing x expected note, outer⟩).feed ts = some (done e)) :
    ∃ c r, ts = closing c :: r ∧ (complete x outer).feed r = some (done e) := by
  cases ts with
  | nil => cases h
  | cons t r =>
    obtain ⟨y, pos⟩ := t
    simp only [feed_reading_cons, step] at h
    split at h
    · rename_i hy
      cases hy
      exact ⟨pos, r, rfl, h⟩
    · cases h

theorem closeOr_of_feed {e x : Expr} {c : Configuration} {ctx : Context} {outer : List Context}
    {ts : List Token} (hc : ∀ t, c.step t = closeOr x ctx outer t)
    (h : (reading c).feed ts = some (done e)) :
    (∃ cl r, ts = closing cl :: r ∧ (complete x outer).feed r = some (done e)) ∨
      (reading ⟨.operand "", ctx :: outer⟩).feed ts = some (done e) := by
  cases ts with
  | nil => cases h
  | cons t r =>
    rw [feed_reading_cons, hc, closeOr] at h
    split at h
    · rename_i ht
      obtain ⟨y, pos⟩ := t
      cases ht
      exact .inl ⟨pos, r, rfl, h⟩
    · exact .inr h

theorem binder_of_feed {e : Expr} {form : Binder} {pos : Position} {outer : List Context}
    {ts : List Token} (h : (reading ⟨.binder form pos, outer⟩).feed ts = some (done e)) :
    ∃ x r, ts = ident x :: r ∧
      (reading (match form with
        | .declare => ⟨.initializer x.1 pos, outer⟩
        | .assign => ⟨.operand "variable value", .assigned x.1 pos :: outer⟩)).feed r =
          some (done e) := by
  cases ts with
  | nil => cases h
  | cons t r =>
    obtain ⟨y, ypos⟩ := t
    simp only [feed_reading_cons, step] at h
    split at h
    · rename_i x
      exact ⟨(x, ypos), r, rfl, h⟩
    · rename_i x
      exact ⟨(x, ypos), r, rfl, h⟩
    · cases h

/-- Tokens that lead to the end of a run from a place for an expression start with the word of one,
and what follows leads there from the expression in its place. -/
def Reads (ts : List Token) : Prop :=
  ∀ (expected : String) (outer : List Context) (e : Expr),
    (reading ⟨.operand expected, outer⟩).feed ts = some (done e) →
      ∃ (d : Derivation) (r : List Token), ts = d.word ++ r ∧
        (complete d.expr outer).feed r = some (done e)

theorem length_lt_of_word {d : Derivation} {ts r : List Token} (h : ts = d.word ++ r) :
    r.length < ts.length := by
  obtain ⟨t, us, hw, -⟩ := d.word_eq_cons
  rw [h, hw, List.length_append, List.length_cons]
  omega

section
variable {n : Nat} (ih : ∀ ts : List Token, ts.length < n → Reads ts)
include ih

theorem arguments_of_feed {f : Callee} {pos : Position} {outer : List Context} {e : Expr} :
    ∀ (m : Nat) (ts : List Token) (before : List Expr), ts.length ≤ m → ts.length < n →
      (reading ⟨.argument f before pos, outer⟩).feed ts = some (done e) →
      ∃ ds c r, ts = words ds ++ closing c :: r ∧
        (complete (.call f (before.reverse ++ exprs ds) pos) outer).feed r = some (done e) := by
  intro m
  induction m with
  | zero =>
    intro ts before hm _ h
    obtain rfl := List.length_eq_zero_iff.1 (Nat.le_zero.1 hm)
    cases h
  | succ m ihm =>
    intro ts before hm hn h
    obtain ⟨c, r, rfl, hr⟩ | h := closeOr_of_feed (fun _ => rfl) h
    · exact ⟨[], c, r, rfl, by simpa [exprs] using hr⟩
    · obtain ⟨d, r, hts, hr⟩ := ih ts hn _ _ _ h
      have hlt := length_lt_of_word hts
      obtain ⟨ds, c, r', rfl, hr'⟩ := ihm r (d.expr :: before) (by omega) (by omega) hr
      refine ⟨d :: ds, c, r', by rw [hts, words, List.append_assoc], ?_⟩
      simpa [exprs] using hr'

theorem body_of_feed {ps : List (String × Position)} {pos : Position} {outer : List Context}
    {e : Expr} {ts : List Token} (hn : ts.length < n)
    (h : (reading ⟨.operand "", .functionBody ps pos :: outer⟩).feed ts = some (done e)) :
    ∃ (b : Derivation) (c : Position) (r : List Token), ts = b.word ++ closing c :: r ∧
      (complete (.function (ps.reverse.map (·.1)) b.expr pos) outer).feed r = some (done e) := by
  obtain ⟨b, r, rfl, hr⟩ := ih _ hn _ _ _ h
  obtain ⟨c, r, rfl, hr'⟩ := closing_of_feed hr
  exact ⟨b, c, r, rfl, hr'⟩

/-- The parameters read so far count as read with the tokens. -/
theorem parameters_of_feed {pos : Position} {outer : List Context} {e : Expr} :
    ∀ (ts : List Token) (ps : List (String × Position)), ts.length < n →
      (reading ⟨.parameter ps pos, outer⟩).feed ts = some (done e) →
      ∃ (qs : List (String × Position)) (b : Derivation) (c : Position) (r : List Token),
        ps.reverse.map ident ++ ts = qs.map ident ++ (b.word ++ closing c :: r) ∧
        (complete (.function (qs.map (·.1)) b.expr pos) outer).feed r = some (done e) := by
  intro ts
  induction ts with
  | nil => intro ps _ h; cases h
  | cons t ts iht =>
    intro ps hn h
    obtain ⟨y, ypos⟩ := t
    simp only [feed_reading_cons, step] at h
    split at h
    · -- one more name
      rename_i x
      have hts : ts.length < n := Nat.lt_of_succ_lt hn
      obtain ⟨qs, b, c, r, hw, hr⟩ := iht ((x, ypos) :: ps) hts h
      exact ⟨qs, b, c, r, by rw [← hw]; simp, hr⟩
    · -- the last name is the body
      rename_i x xpos ps
      refine ⟨ps.reverse, .name (x, xpos), ypos, ts, by simp [word], ?_⟩
      simpa [names, Derivation.expr] using h
    · obtain ⟨b, c, r, hw, hr⟩ := body_of_feed ih hn h
      exact ⟨ps.reverse, b, c, r, by rw [hw], hr⟩

theorem form_of_feed {opened : Position} {outer : List Context} {e : Expr} {ts : List Token}
    (hn : ts.length < n) (h : (reading ⟨.head opened, outer⟩).feed ts = some (done e)) :
    ∃ (d : Derivation) (r : List Token), opening opened :: ts = d.word ++ r ∧
      (complete d.expr outer).feed r = some (done e) := by
  cases ts with
  | nil => cases h
  | cons t ts =>
    obtain ⟨y, pos⟩ := t
    have hts : ts.length < n := Nat.lt_of_succ_lt hn
    simp only [feed_reading_cons, step, enterForm] at h
    split at h
    · exact ⟨.unit opened pos, ts, rfl, h⟩
    · obtain ⟨a, r₁, h₁, hr₁⟩ := ih _ hts _ _ _ h
      have l₁ := length_lt_of_word h₁
      obtain ⟨b, r₂, h₂, hr₂⟩ := ih _ (by omega) _ _ _ hr₁
      have l₂ := length_lt_of_word h₂
      obtain ⟨c, r, h₃, hr⟩ | hr₃ := closeOr_of_feed (fun _ => rfl) hr₂
      · exact ⟨.ifThen opened pos a b c, r, by simp [word, h₁, h₂, h₃], hr⟩
      · obtain ⟨d, r₃, h₃, hr₃⟩ := ih _ (by omega) _ _ _ hr₃
        obtain ⟨c, r, h₄, hr⟩ := closing_of_feed hr₃
        exact ⟨.ifThenElse opened pos a b d c, r, by simp [word, h₁, h₂, h₃, h₄], hr⟩
    · obtain ⟨qs, b, c, r, hw, hr⟩ := parameters_of_feed ih ts [] hts h
      simp only [List.reverse_nil, List.map_nil, List.nil_append] at hw
      exact ⟨.function opened pos qs b c, r, by simp [word, hw], hr⟩
    · obtain ⟨x, r₁, rfl, hr₁⟩ := binder_of_feed h
      obtain ⟨c, r, h₂, hr⟩ | hr₂ := closeOr_of_feed (fun _ => rfl) hr₁
      · exact ⟨.declare opened pos x c, r, by simp [word, h₂], hr⟩
      · obtain ⟨d, r₂, h₂, hr₂⟩ := ih _ (Nat.lt_of_succ_lt hts) _ _ _ hr₂
        obtain ⟨c, r, h₃, hr⟩ := closing_of_feed hr₂
        exact ⟨.declareAs opened pos x d c, r, by simp [word, h₂, h₃], hr⟩
    · obtain ⟨x, r₁, rfl, hr₁⟩ := binder_of_feed h
      obtain ⟨d, r₂, h₂, hr₂⟩ := ih _ (Nat.lt_of_succ_lt hts) _ _ _ hr₁
      obtain ⟨c, r, h₃, hr⟩ := closing_of_feed hr₂
      exact ⟨.assign opened pos x d c, r, by simp [word, h₂, h₃], hr⟩
    · obtain ⟨a, r₁, h₁, hr₁⟩ := ih _ hts _ _ _ h
      have l₁ := length_lt_of_word h₁
      obtain ⟨b, r₂, h₂, hr₂⟩ := ih _ (by omega) _ _ _ hr₁
      obtain ⟨c, r, h₃, hr⟩ := closing_of_feed hr₂
      exact ⟨.whileLoop opened pos a b c, r, by simp [word, h₁, h₂, h₃], hr⟩
    · obtain ⟨a, r₁, h₁, hr₁⟩ := ih _ hts _ _ _ h
      have l₁ := length_lt_of_word h₁
      obtain ⟨b, r₂, h₂, hr₂⟩ := ih _ (by omega) _ _ _ hr₁
      have l₂ := length_lt_of_word h₂
      obtain ⟨d, r₃, h₃, hr₃⟩ := ih _ (by omega) _ _ _ hr₂
      have l₃ := length_lt_of_word h₃
      obtain ⟨f, r₄, h₄, hr₄⟩ := ih _ (by omega) _ _ _ hr₃
      obtain ⟨c, r, h₅, hr⟩ := closing_of_feed hr₄
      exact ⟨.forLoop opened pos a b d f c, r, by simp [word, h₁, h₂, h₃, h₄, h₅], hr⟩
    · obtain ⟨p, hp, h⟩ := Option.bind_eq_some_iff.1 h
      obtain ⟨f, hf, rfl⟩ := Option.map_eq_some_iff.1 hp
      obtain ⟨ds, c, r, rfl, hr⟩ := arguments_of_feed ih ts.length ts [] (Nat.le_refl _) hts h
      refine ⟨.call opened f pos ds c, r, ?_, hr⟩
      simp [word, Callee.lexeme_eq_iff.2 hf]

end

/-- Every run that ends has read an expression wherever it had a place for one. -/
theorem reads_all (n : Nat) : ∀ ts : List Token, ts.length < n → Reads ts := by
  induction n with
  | zero => intro ts h; cases h
  | succ n ih =>
    intro ts hn expected outer e h
    cases ts with
    | nil => cases h
    | cons t ts =>
      rw [feed_reading_cons] at h
      obtain ⟨p, hp, h⟩ := Option.bind_eq_some_iff.1 h
      obtain ⟨pos, rfl, rfl⟩ | ⟨d, hd, rfl⟩ := enter_eq_some hp
      · exact form_of_feed ih (Nat.lt_of_succ_lt_succ hn) h
      · exact ⟨d, ts, by rw [hd]; rfl, h⟩

end Progress

/-! ## Programs -/

/-- No expression goes on with the end of the text. -/
theorem Configuration.step_eof (c : Configuration) {t : Token} (h : t.lexeme = .eof) :
    c.step t = none := by
  obtain ⟨focus, outer⟩ := c
  obtain ⟨_, pos⟩ := t
  cases h
  cases focus with
  | parameter params pos => cases params <;> rfl
  | binder form pos => cases form <;> rfl
  | _ => rfl

theorem Derivation.isEof_of_word {d : Derivation} {t : Token} {ts : List Token}
    (h : d.word = t :: ts) : t.isEof = false := by
  obtain ⟨t', ts', hw, he, -⟩ := d.word_eq_cons
  obtain ⟨rfl, -⟩ := List.cons.inj (h.symm.trans hw)
  rw [← Bool.not_eq_true, Token.isEof_iff]
  exact he

namespace Parser

/-- The reader stands in front of these tokens, as the scanner finds them: the end of the text is
the last, and no other. -/
structure Faces (p : Parser) (ts : List Token) (eof : Token) : Prop where
  peeked : p.peeked = none
  ahead : p.ahead = ts.map .ok ++ [.ok eof]
  inner : ∀ t ∈ ts, t.isEof = false
  last : eof.isEof = true

/-- An expression that is begun and completed goes to those that are done. -/
theorem finishAll_of_feed {eof : Token} {e : Expr} {rest : List Scanned} :
    ∀ (ts : List Token) (before : List Expr) (c : Configuration),
      (Progress.reading c).feed ts = some (.done e) →
      finishAll eof before (some c) (ts.map .ok ++ rest) = finishAll eof (e :: before) none rest
  | [], _, _, h => by cases h
  | t :: ts, before, c, h => by
    rw [Progress.feed_reading_cons] at h
    obtain ⟨p, hp, h⟩ := Option.bind_eq_some_iff.1 h
    simp only [List.map_cons, List.cons_append, finishAll, Option.isNone_some, Bool.false_eq_true,
      false_and, if_false, Option.getD_some, hp]
    cases p with
    | done x =>
      cases ts with
      | nil => cases h; rfl
      | cons t ts => cases h
    | reading c => exact finishAll_of_feed ts before c h

/-- A token other than the end of the text begins the next expression. -/
theorem finishAll_none_cons {eof t : Token} (ht : t.isEof = false) (before : List Expr)
    (rest : List Scanned) :
    finishAll eof before none (.ok t :: rest) =
      finishAll eof before (some (.start "expression")) (.ok t :: rest) := by
  simp [finishAll, ht]

/-- The words of some derivations are read as their expressions, whatever stands behind them. -/
theorem finishAll_words_append (eof : Token) (rest : List Scanned) :
    ∀ (ds : List Derivation) (before : List Expr),
      finishAll eof before none ((words ds).map .ok ++ rest) =
        finishAll eof ((exprs ds).reverse ++ before) none rest
  | [], before => rfl
  | d :: ds, before => by
    obtain ⟨t, ts, hw, -⟩ := d.word_eq_cons
    have hfeed : (Progress.reading (.start "expression")).feed d.word = some (.done d.expr) := by
      have h := Progress.feed_word d "expression" [] []
      rwa [List.append_nil] at h
    calc
      finishAll eof before none ((words (d :: ds)).map .ok ++ rest)
      _ = finishAll eof before (some (.start "expression"))
            (d.word.map .ok ++ ((words ds).map .ok ++ rest)) := by
        rw [words, List.map_append, List.append_assoc, hw]
        exact finishAll_none_cons (isEof_of_word hw) _ _
      _ = finishAll eof (d.expr :: before) none ((words ds).map .ok ++ rest) :=
        finishAll_of_feed _ _ _ hfeed
      _ = finishAll eof ((exprs (d :: ds)).reverse ++ before) none rest := by
        rw [finishAll_words_append eof rest ds]
        simp [exprs]

theorem finishAll_words {eof eof' : Token} (he : eof.isEof = true) (ds : List Derivation)
    (before : List Expr) : finishAll eof' before none ((words ds).map .ok ++ [.ok eof]) =
      (.ok (before.reverse ++ exprs ds), ⟨some eof, [], eof'⟩) := by
  simp [finishAll_words_append, finishAll, he]

/-- A run that succeeds completes the expression it is in the midst of. -/
theorem feed_of_finishAll {eof eof' : Token} {es : List Expr} {p : Parser}
    (he : eof.isEof = true) :
    ∀ (ts : List Token) (before : List Expr) (c : Configuration),
      finishAll eof' before (some c) (ts.map .ok ++ [.ok eof]) = (.ok es, p) →
      ∃ us vs e, ts = us ++ vs ∧ (Progress.reading c).feed us = some (.done e) ∧
        finishAll eof' (e :: before) none (vs.map .ok ++ [.ok eof]) = (.ok es, p)
  | [], before, c, h => by
    simp [finishAll, c.step_eof (Token.isEof_iff.1 he), refuse] at h
  | t :: ts, before, c, h => by
    simp only [List.map_cons, List.cons_append, finishAll, Option.isNone_some, Bool.false_eq_true,
      false_and, if_false, Option.getD_some] at h
    split at h
    · simp [refuse] at h
    · rename_i e hs
      exact ⟨[t], ts, e, rfl, by simp [hs], h⟩
    · rename_i c' hs
      obtain ⟨us, vs, e, rfl, hu, hv⟩ := feed_of_finishAll he ts before c' h
      exact ⟨t :: us, vs, e, rfl, by simpa [hs] using hu, hv⟩

theorem words_of_finishAll {eof eof' : Token} {es : List Expr} {p : Parser}
    (he : eof.isEof = true) (n : Nat) :
    ∀ (ts : List Token) (before : List Expr), ts.length ≤ n → (∀ t ∈ ts, t.isEof = false) →
      finishAll eof' before none (ts.map .ok ++ [.ok eof]) = (.ok es, p) →
      ∃ ds, words ds = ts := by
  induction n with
  | zero =>
    intro ts before hn _ _
    exact ⟨[], (List.length_eq_zero_iff.1 (Nat.le_zero.1 hn)).symm⟩
  | succ n ih =>
    intro ts before hn hts h
    cases ts with
    | nil => exact ⟨[], rfl⟩
    | cons t ts =>
      rw [List.map_cons, List.cons_append, finishAll_none_cons (hts t List.mem_cons_self)] at h
      obtain ⟨us, vs, e, hw, hu, hv⟩ := feed_of_finishAll he (t :: ts) before _ h
      obtain ⟨d, r, rfl, hr⟩ :=
        Progress.reads_all (us.length + 1) us (Nat.lt_succ_self _) _ _ _ hu
      -- nothing is open around the expression, so nothing of the run is left behind it
      obtain rfl : r = [] := by
        cases r with
        | nil => rfl
        | cons t r => cases hr
      rw [List.append_nil] at hw
      have hlt := Progress.length_lt_of_word hw
      rw [List.length_cons] at hn hlt
      obtain ⟨ds, hds⟩ := ih vs (e :: before) (by omega)
        (fun t ht => hts t (by rw [hw]; exact List.mem_append_right _ ht)) hv
      exact ⟨d :: ds, by rw [words, hds, hw]⟩

/-- Reading a program is reading expressions up to the end, behind a look at the first token. -/
theorem Faces.program_eq {p : Parser} {ts : List Token} {eof : Token} (h : p.Faces ts eof) :
    p.program =
      match finishAll p.eof [] none (ts.map .ok ++ [.ok eof]) with
      | (.ok es, p) => (.ok ⟨(ts.head?.getD eof).position, es⟩, p)
      | (.error e, p) => (.error e, p) := by
  obtain ⟨peeked, ahead, eof'⟩ := p
  obtain ⟨rfl, rfl, -, -⟩ := h
  cases ts <;> rfl

/-- The reader accepts exactly the words of the grammar. Each word has one derivation, and the
program that is read consists of what it derives. -/
theorem Faces.program_iff {p : Parser} {ts : List Token} {eof : Token} (h : p.Faces ts eof) :
    ((∃ program, p.program.1 = .ok program) ↔ ∃ ds, words ds = ts) ∧
      ∀ ds, words ds = ts → (∀ ds', words ds' = ts → ds' = ds) ∧
        p.program.1 = .ok ⟨(ts.head?.getD eof).position, exprs ds⟩ := by
  have hread : ∀ ds, words ds = ts →
      p.program.1 = .ok ⟨(ts.head?.getD eof).position, exprs ds⟩ := by
    intro ds hds
    rw [h.program_eq, ← hds, finishAll_words h.last]
    rfl
  refine ⟨⟨?_, ?_⟩, fun ds hds => ⟨fun ds' hds' => ?_, hread ds hds⟩⟩
  · rintro ⟨program, hp⟩
    rw [h.program_eq] at hp
    split at hp
    · rename_i hf
      exact words_of_finishAll h.last ts.length ts [] (Nat.le_refl _) h.inner hf
    · cases hp
  · rintro ⟨ds, hds⟩
    exact ⟨_, hread ds hds⟩
  · -- both derive what is read
    have he : exprs ds' = exprs ds := by
      have := (hread ds' hds').symm.trans (hread ds hds)
      simpa using this
    exact (eq_of_exprs_eq ds' ds [] [] he (by rw [hds, hds'])).1

/-- Where the names run up to the end of a function, the last is the body. -/
theorem program_names_to_the_end :
    let p := Parser.start "(function a b a)".toList
    let d : Derivation := .function ⟨1, 1, 0⟩ ⟨1, 2, 1⟩ [("a", ⟨1, 11, 10⟩), ("b", ⟨1, 13, 12⟩)]
      (.name ("a", ⟨1, 15, 14⟩)) ⟨1, 16, 15⟩
    p.Faces (words [d]) ⟨.eof, ⟨1, 17, 16⟩⟩ ∧
      p.program.1 = .ok ⟨⟨1, 1, 0⟩, [.function ["a", "b"] (.name "a" ⟨1, 15, 14⟩) ⟨1, 2, 1⟩]⟩ := by
  intro p d
  have h : p.Faces (words [d]) ⟨.eof, ⟨1, 17, 16⟩⟩ := by
    refine ⟨rfl, ?_, ?_, rfl⟩
    · rfl
    · decide
  exact ⟨h, (h.program_iff.2 [d] rfl).2⟩

end Parser

end SmallLisp

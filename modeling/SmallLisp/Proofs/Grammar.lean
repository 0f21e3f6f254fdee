import SmallLisp.Expr

/-!
# The grammar

A program is any number of expressions, and an expression is one of

    INT | STRING | TRUE | FALSE | IDENT | ( ) | ( CALLABLE expr* )
    ( FUNCTION IDENT* expr ) | ( IF expr expr ) | ( IF expr expr expr )
    ( LET IDENT ) | ( LET IDENT expr ) | ( EQUALS IDENT expr )
    ( WHILE expr expr ) | ( FOR expr expr expr expr )

A `Derivation` names the production used at each node and carries what the grammar leaves open: the
content of the literals and names and the place of every token. `Derivation.word` writes out its
tokens and `Derivation.expr` reads off the expression. An expression does not say where all of its
tokens stand, but together with the tokens it determines the derivation
(`Derivation.eq_of_expr_eq`).
-/

set_option autoImplicit false

namespace SmallLisp

namespace Token

/-- `(` at a place. -/
abbrev opening (pos : Position) : Token := ⟨.punct .openParen, pos⟩

/-- `)` at a place. -/
abbrev closing (pos : Position) : Token := ⟨.punct .closeParen, pos⟩

/-- A reserved word at a place. -/
abbrev keyword (k : Keyword) (pos : Position) : Token := ⟨.keyword k, pos⟩

/-- A name with its place. -/
abbrev ident (x : String × Position) : Token := ⟨.ident x.1, x.2⟩

end Token

/-- A derivation of an expression. -/
inductive Derivation
  | literal (l : Literal) (pos : Position)
  | name (x : String × Position)
  | unit (opened closed : Position)
  | call (opened : Position) (callee : Callee) (pos : Position) (args : List Derivation)
      (closed : Position)
  | function (opened pos : Position) (params : List (String × Position)) (body : Derivation)
      (closed : Position)
  | ifThen (opened pos : Position) (cond yes : Derivation) (closed : Position)
  | ifThenElse (opened pos : Position) (cond yes no : Derivation) (closed : Position)
  | declare (opened pos : Position) (x : String × Position) (closed : Position)
  | declareAs (opened pos : Position) (x : String × Position) (init : Derivation)
      (closed : Position)
  | assign (opened pos : Position) (x : String × Position) (value : Derivation)
      (closed : Position)
  | whileLoop (opened pos : Position) (cond body : Derivation) (closed : Position)
  | forLoop (opened pos : Position) (init cond post body : Derivation) (closed : Position)

namespace Derivation

open Token

mutual

/-- The tokens of a derivation. -/
def word : Derivation → List Token
  | literal l pos => [⟨l.lexeme, pos⟩]
  | name x => [ident x]
  | unit opened closed => [opening opened, closing closed]
  | call opened callee pos args closed =>
    opening opened :: ⟨callee.lexeme, pos⟩ :: (words args ++ [closing closed])
  | function opened pos params body closed =>
    opening opened :: keyword .functionWord pos ::
      (params.map ident ++ (body.word ++ [closing closed]))
  | ifThen opened pos cond yes closed =>
    opening opened :: keyword .ifWord pos :: (cond.word ++ (yes.word ++ [closing closed]))
  | ifThenElse opened pos cond yes no closed =>
    opening opened :: keyword .ifWord pos ::
      (cond.word ++ (yes.word ++ (no.word ++ [closing closed])))
  | declare opened pos x closed =>
    [opening opened, keyword .letWord pos, ident x, closing closed]
  | declareAs opened pos x init closed =>
    opening opened :: keyword .letWord pos :: ident x :: (init.word ++ [closing closed])
  | assign opened pos x value closed =>
    opening opened :: ⟨.punct .assign, pos⟩ :: ident x :: (value.word ++ [closing closed])
  | whileLoop opened pos cond body closed =>
    opening opened :: keyword .whileWord pos :: (cond.word ++ (body.word ++ [closing closed]))
  | forLoop opened pos init cond post body closed =>
    opening opened :: keyword .forWord pos ::
      (init.word ++ (cond.word ++ (post.word ++ (body.word ++ [closing closed]))))

/-- The tokens of several derivations. -/
def words : List Derivation → List Token
  | [] => []
  | d :: ds => d.word ++ words ds

end

mutual

/-- The expression that a derivation derives. -/
def expr : Derivation → Expr
  | literal l pos => .literal l pos
  | name x => .name x.1 x.2
  | unit opened _ => .unit opened
  | call _ callee pos args _ => .call callee (exprs args) pos
  | function _ pos params body _ => .function (params.map (·.1)) body.expr pos
  | ifThen _ pos cond yes _ => .ifThen cond.expr yes.expr pos
  | ifThenElse _ pos cond yes no _ => .ifThenElse cond.expr yes.expr no.expr pos
  | declare _ pos x _ => .declare x.1 pos
  | declareAs _ pos x init _ => .declareAs x.1 init.expr pos
  | assign _ pos x value _ => .assign x.1 value.expr pos
  | whileLoop _ pos cond body _ => .whileLoop cond.expr body.expr pos
  | forLoop _ pos init cond post body _ =>
    .forLoop init.expr cond.expr post.expr body.expr pos

/-- The expressions that several derivations derive. -/
def exprs : List Derivation → List Expr
  | [] => []
  | d :: ds => d.expr :: exprs ds

end

end Derivation

/-! ## The terminals -/

theorem Literal.lexeme_eq_iff {l : Literal} {x : Lexeme} :
    l.lexeme = x ↔ Literal.ofLexeme? x = some l := by
  constructor
  · rintro rfl
    exact Literal.ofLexeme?_lexeme l
  · intro h
    unfold Literal.ofLexeme? at h
    split at h <;> simp_all [Literal.lexeme]
    all_goals subst h; rfl

theorem Operator.lexeme_eq_iff {o : Operator} {x : Lexeme} :
    o.lexeme = x ↔ Operator.ofLexeme? x = some o := by
  constructor
  · rintro rfl
    exact Operator.ofLexeme?_lexeme o
  · intro h
    unfold Operator.ofLexeme? at h
    split at h <;> simp at h <;> subst h <;> rfl

theorem Callee.lexeme_eq_iff {c : Callee} {x : Lexeme} :
    c.lexeme = x ↔ Callee.ofLexeme? x = some c := by
  constructor
  · rintro rfl
    exact Callee.ofLexeme?_lexeme c
  · intro h
    unfold Callee.ofLexeme? at h
    split at h
    · simp at h; subst h; rfl
    · obtain ⟨o, ho, rfl⟩ := Option.map_eq_some_iff.1 h
      exact Operator.lexeme_eq_iff.2 ho

/-! ## One derivation for a word -/

namespace Derivation

open Token

theorem params_eq {ps ps' : List (String × Position)} {r r' : List Token}
    (hn : ps.map (·.1) = ps'.map (·.1)) (h : ps.map ident ++ r = ps'.map ident ++ r') :
    ps = ps' ∧ r = r' := by
  have hlen : (ps.map ident).length = (ps'.map ident).length := by
    simpa using congrArg List.length hn
  obtain ⟨hp, hr⟩ := List.append_inj h hlen
  refine ⟨(List.map_inj_right fun x y hxy => ?_).1 hp, hr⟩
  simp only [Token.mk.injEq, Lexeme.ident.injEq] at hxy
  exact Prod.ext hxy.1 hxy.2

theorem closing_eq {c c' : Position} {r r' : List Token}
    (h : [closing c] ++ r = [closing c'] ++ r') : c = c' ∧ r = r' := by
  simpa using h

mutual

/-- Where the expression is known, the tokens leave nothing open about its derivation. -/
theorem eq_of_expr_eq : ∀ (d d' : Derivation) (r r' : List Token),
    d.expr = d'.expr → d.word ++ r = d'.word ++ r' → d = d' ∧ r = r'
  | .literal l pos, d', r, r', he, h => by
    cases d' with
    | literal l' pos' =>
      obtain ⟨rfl, rfl⟩ := Expr.literal.inj he
      exact ⟨rfl, (List.cons.inj h).2⟩
    | _ => simp [expr] at he
  | .name x, d', r, r', he, h => by
    cases d' with
    | name x' =>
      obtain ⟨h1, h2⟩ := Expr.name.inj he
      exact ⟨by rw [Prod.ext h1 h2], (List.cons.inj h).2⟩
    | _ => simp [expr] at he
  | .unit o c, d', r, r', he, h => by
    cases d' with
    | unit o' c' => simpa [word, and_assoc] using h
    | _ => simp [expr] at he
  | .call o f p args c, d', r, r', he, h => by
    cases d' with
    | call o' f' p' args' c' =>
      obtain ⟨rfl, hargs, rfl⟩ := Expr.call.inj he
      simp only [word, List.cons_append, List.append_assoc, List.cons.injEq, Token.mk.injEq,
        true_and] at h
      obtain ⟨rfl, h1⟩ := h
      obtain ⟨rfl, h2⟩ := eq_of_exprs_eq args args' _ _ hargs h1
      obtain ⟨rfl, rfl⟩ := closing_eq h2
      exact ⟨rfl, rfl⟩
    | _ => simp [expr] at he
  | .function o p ps b c, d', r, r', he, h => by
    cases d' with
    | function o' p' ps' b' c' =>
      obtain ⟨hps, hb, rfl⟩ := Expr.function.inj he
      simp only [word, List.cons_append, List.append_assoc, List.cons.injEq, Token.mk.injEq,
        true_and] at h
      obtain ⟨rfl, h1⟩ := h
      obtain ⟨rfl, h2⟩ := params_eq hps h1
      obtain ⟨rfl, h3⟩ := eq_of_expr_eq b b' _ _ hb h2
      obtain ⟨rfl, rfl⟩ := closing_eq h3
      exact ⟨rfl, rfl⟩
    | _ => simp [expr] at he
  | .ifThen o p a b c, d', r, r', he, h => by
    cases d' with
    | ifThen o' p' a' b' c' =>
      obtain ⟨ha, hb, rfl⟩ := Expr.ifThen.inj he
      simp only [word, List.cons_append, List.append_assoc, List.cons.injEq, Token.mk.injEq,
        true_and] at h
      obtain ⟨rfl, h1⟩ := h
      obtain ⟨rfl, h2⟩ := eq_of_expr_eq a a' _ _ ha h1
      obtain ⟨rfl, h3⟩ := eq_of_expr_eq b b' _ _ hb h2
      obtain ⟨rfl, rfl⟩ := closing_eq h3
      exact ⟨rfl, rfl⟩
    | _ => simp [expr] at he
  | .ifThenElse o p a b e c, d', r, r', he, h => by
    cases d' with
    | ifThenElse o' p' a' b' e' c' =>
      obtain ⟨ha, hb, hc, rfl⟩ := Expr.ifThenElse.inj he
      simp only [word, List.cons_append, List.append_assoc, List.cons.injEq, Token.mk.injEq,
        true_and] at h
      obtain ⟨rfl, h1⟩ := h
      obtain ⟨rfl, h2⟩ := eq_of_expr_eq a a' _ _ ha h1
      obtain ⟨rfl, h3⟩ := eq_of_expr_eq b b' _ _ hb h2
      obtain ⟨rfl, h4⟩ := eq_of_expr_eq e e' _ _ hc h3
      obtain ⟨rfl, rfl⟩ := closing_eq h4
      exact ⟨rfl, rfl⟩
    | _ => simp [expr] at he
  | .declare o p x c, d', r, r', he, h => by
    cases d' with
    | declare o' p' x' c' =>
      obtain ⟨-, rfl⟩ := Expr.declare.inj he
      simp only [word, List.cons_append, List.nil_append, List.cons.injEq, Token.mk.injEq,
        Lexeme.ident.injEq, true_and] at h
      obtain ⟨rfl, ⟨h1, h2⟩, rfl, rfl⟩ := h
      exact ⟨by rw [Prod.ext h1 h2], rfl⟩
    | _ => simp [expr] at he
  | .declareAs o p x a c, d', r, r', he, h => by
    cases d' with
    | declareAs o' p' x' a' c' =>
      obtain ⟨-, ha, rfl⟩ := Expr.declareAs.inj he
      simp only [word, List.cons_append, List.append_assoc, List.cons.injEq, Token.mk.injEq,
        Lexeme.ident.injEq, true_and] at h
      obtain ⟨rfl, ⟨h1, h2⟩, h3⟩ := h
      obtain ⟨rfl, h4⟩ := eq_of_expr_eq a a' _ _ ha h3
      obtain ⟨rfl, rfl⟩ := closing_eq h4
      exact ⟨by rw [Prod.ext h1 h2], rfl⟩
    | _ => simp [expr] at he
  | .assign o p x a c, d', r, r', he, h => by
    cases d' with
    | assign o' p' x' a' c' =>
      obtain ⟨-, ha, rfl⟩ := Expr.assign.inj he
      simp only [word, List.cons_append, List.append_assoc, List.cons.injEq, Token.mk.injEq,
        Lexeme.ident.injEq, true_and] at h
      obtain ⟨rfl, ⟨h1, h2⟩, h3⟩ := h
      obtain ⟨rfl, h4⟩ := eq_of_expr_eq a a' _ _ ha h3
      obtain ⟨rfl, rfl⟩ := closing_eq h4
      exact ⟨by rw [Prod.ext h1 h2], rfl⟩
    | _ => simp [expr] at he
  | .whileLoop o p a b c, d', r, r', he, h => by
    cases d' with
    | whileLoop o' p' a' b' c' =>
      obtain ⟨ha, hb, rfl⟩ := Expr.whileLoop.inj he
      simp only [word, List.cons_append, List.append_assoc, List.cons.injEq, Token.mk.injEq,
        true_and] at h
      obtain ⟨rfl, h1⟩ := h
      obtain ⟨rfl, h2⟩ := eq_of_expr_eq a a' _ _ ha h1
      obtain ⟨rfl, h3⟩ := eq_of_expr_eq b b' _ _ hb h2
      obtain ⟨rfl, rfl⟩ := closing_eq h3
      exact ⟨rfl, rfl⟩
    | _ => simp [expr] at he
  | .forLoop o p a b e f c, d', r, r', he, h => by
    cases d' with
    | forLoop o' p' a' b' e' f' c' =>
      obtain ⟨ha, hb, hc, hd, rfl⟩ := Expr.forLoop.inj he
      simp only [word, List.cons_append, List.append_assoc, List.cons.injEq, Token.mk.injEq,
        true_and] at h
      obtain ⟨rfl, h1⟩ := h
      obtain ⟨rfl, h2⟩ := eq_of_expr_eq a a' _ _ ha h1
      obtain ⟨rfl, h3⟩ := eq_of_expr_eq b b' _ _ hb h2
      obtain ⟨rfl, h4⟩ := eq_of_expr_eq e e' _ _ hc h3
      obtain ⟨rfl, h5⟩ := eq_of_expr_eq f f' _ _ hd h4
      obtain ⟨rfl, rfl⟩ := closing_eq h5
      exact ⟨rfl, rfl⟩
    | _ => simp [expr] at he

theorem eq_of_exprs_eq : ∀ (ds ds' : List Derivation) (r r' : List Token),
    exprs ds = exprs ds' → words ds ++ r = words ds' ++ r' → ds = ds' ∧ r = r'
  | [], ds', r, r', he, h => by
    cases ds' with
    | nil => exact ⟨rfl, h⟩
    | cons d ds' => simp [exprs] at he
  | d :: ds, ds', r, r', he, h => by
    cases ds' with
    | nil => simp [exprs] at he
    | cons d' ds' =>
      simp only [exprs, List.cons.injEq] at he
      simp only [words, List.append_assoc] at h
      obtain ⟨rfl, hds⟩ := eq_of_expr_eq d d' _ _ he.1 h
      obtain ⟨rfl, hr⟩ := eq_of_exprs_eq ds ds' _ _ he.2 hds
      exact ⟨rfl, hr⟩

end

end Derivation

end SmallLisp

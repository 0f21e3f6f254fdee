import SmallLisp.Proofs.Prefixes

/-!
# Nodes and their tokens

Each node of a program is derived from consecutive tokens out of those that the scanner finds in the
text that was read (`Program.exists_derivation_of_node`), and has the place of one of them, the one that
introduces it (`Program.introduction_mem_results`).
-/

set_option autoImplicit false

namespace SmallLisp

/-- The nodes of a program. -/
inductive Program.Node (p : Program) : Expr → Prop
  | expr {e : Expr} (h : e ∈ p.exprs) : Node p e
  | part {e c : Expr} (h : Node p e) (hc : c ∈ e.children) : Node p c

/-- The lexeme that introduces a node: that of an atom, the opening parenthesis of `()`, the operator or
the name of a call, and the keyword of every other form. -/
def Expr.introducer : Expr → Lexeme
  | literal l _ => l.lexeme
  | name x _ => .ident x
  | unit _ => .punct .openParen
  | call callee _ _ => callee.lexeme
  | function _ _ _ => .keyword .functionWord
  | ifThen _ _ _ | ifThenElse _ _ _ _ => .keyword .ifWord
  | declare _ _ | declareAs _ _ _ => .keyword .letWord
  | assign _ _ _ => .punct .assign
  | whileLoop _ _ _ => .keyword .whileWord
  | forLoop _ _ _ _ _ => .keyword .forWord

/-- The token that introduces a node. -/
def Expr.introduction (e : Expr) : Token := ⟨e.introducer, e.position⟩

namespace Derivation

open Token

/-- The derivations of the parts of a node. -/
def parts : Derivation → List Derivation
  | literal _ _ | name _ | unit _ _ | declare _ _ _ _ => []
  | call _ _ _ args _ => args
  | function _ _ _ body _ => [body]
  | ifThen _ _ cond yes _ => [cond, yes]
  | ifThenElse _ _ cond yes no _ => [cond, yes, no]
  | declareAs _ _ _ init _ => [init]
  | assign _ _ _ value _ => [value]
  | whileLoop _ _ cond body _ => [cond, body]
  | forLoop _ _ init cond post body _ => [init, cond, post, body]

/-- The tokens of a node in front of those of its parts. -/
def front : Derivation → List Token
  | literal l pos => [⟨l.lexeme, pos⟩]
  | name x => [ident x]
  | unit opened closed => [opening opened, closing closed]
  | call opened callee pos _ _ => [opening opened, ⟨callee.lexeme, pos⟩]
  | function opened pos params _ _ =>
    opening opened :: keyword .functionWord pos :: params.map ident
  | ifThen opened pos _ _ _ | ifThenElse opened pos _ _ _ _ =>
    [opening opened, keyword .ifWord pos]
  | declare opened pos x closed =>
    [opening opened, keyword .letWord pos, ident x, closing closed]
  | declareAs opened pos x _ _ => [opening opened, keyword .letWord pos, ident x]
  | assign opened pos x _ _ => [opening opened, ⟨.punct .assign, pos⟩, ident x]
  | whileLoop opened pos _ _ _ => [opening opened, keyword .whileWord pos]
  | forLoop opened pos _ _ _ _ _ => [opening opened, keyword .forWord pos]

/-- The tokens of a node behind those of its parts. -/
def back : Derivation → List Token
  | literal _ _ | name _ | unit _ _ | declare _ _ _ _ => []
  | call _ _ _ _ closed | function _ _ _ _ closed | ifThen _ _ _ _ closed
  | ifThenElse _ _ _ _ _ closed | declareAs _ _ _ _ closed | assign _ _ _ _ closed
  | whileLoop _ _ _ _ closed | forLoop _ _ _ _ _ _ closed => [closing closed]

theorem exprs_eq_map (ds : List Derivation) : exprs ds = ds.map expr := by
  induction ds with
  | nil => rfl
  | cons d ds ih => rw [exprs, ih, List.map_cons]

theorem words_eq_flatMap (ds : List Derivation) : words ds = ds.flatMap word := by
  induction ds with
  | nil => rfl
  | cons d ds ih => rw [words, ih, List.flatMap_cons]

theorem children_expr (d : Derivation) : d.expr.children = d.parts.map expr := by
  cases d with
  | call opened callee pos args closed => exact exprs_eq_map args
  | _ => rfl

/-- The tokens of a node are its own and between them those of its parts. -/
theorem word_eq (d : Derivation) : d.word = d.front ++ words d.parts ++ d.back := by
  cases d <;> simp [word, words, parts, front, back]

/-- One of the tokens in front introduces the node. -/
theorem introduction_mem_front (d : Derivation) : d.expr.introduction ∈ d.front := by
  cases d <;> simp [Expr.introduction, Expr.introducer, front, expr, Expr.position]

theorem introduction_mem_word (d : Derivation) : d.expr.introduction ∈ d.word := by
  rw [d.word_eq]
  exact List.mem_append_left _ (List.mem_append_left _ d.introduction_mem_front)

theorem word_infix_words {d : Derivation} {ds : List Derivation} (h : d ∈ ds) :
    d.word <:+: words ds := by
  rw [words_eq_flatMap, List.flatMap_def]
  exact List.infix_of_mem_flatten (List.mem_map_of_mem h)

/-- The tokens of a part stand together among those of the whole. -/
theorem word_infix_of_part {d c : Derivation} (h : c ∈ d.parts) : c.word <:+: d.word := by
  rw [d.word_eq]
  exact (word_infix_words h).trans ⟨d.front, d.back, rfl⟩

end Derivation

/-- Every node of what some derivations derive is derived from tokens that stand together among theirs. -/
theorem Program.Node.exists_derivation {p : Program} {ds : List Derivation}
    (hp : p.exprs = Derivation.exprs ds) {e : Expr} (h : p.Node e) :
    ∃ d : Derivation, d.expr = e ∧ d.word <:+: Derivation.words ds := by
  induction h with
  | expr he =>
    rw [hp, Derivation.exprs_eq_map] at he
    obtain ⟨d, hd, rfl⟩ := List.mem_map.1 he
    exact ⟨d, rfl, Derivation.word_infix_words hd⟩
  | part _ hc ih =>
    obtain ⟨d, rfl, hd⟩ := ih
    rw [d.children_expr] at hc
    obtain ⟨part, hpart, rfl⟩ := List.mem_map.1 hc
    exact ⟨part, rfl, (Derivation.word_infix_of_part hpart).trans hd⟩

/-! ## Texts that are programs -/

namespace Parser

/-- A run that succeeds has met with tokens alone. -/
theorem exists_tokens_of_finishAll {eof last : Token} {es : List Expr} {q : Parser} :
    ∀ (found : List Scanned) (before : List Expr) (current : Option Configuration),
      (∀ s ∈ found, Cursor.isEnd s = false) →
      finishAll eof before current (found ++ [.ok last]) = (.ok es, q) →
      ∃ ts : List Token, found = ts.map .ok
  | [], _, _, _, _ => ⟨[], rfl⟩
  | .error fault :: found, before, current, _, h => by cases h
  | .ok t :: found, before, current, hfound, h => by
    obtain ⟨ht, hfound⟩ := List.forall_mem_cons.1 hfound
    have ht : t.isEof = false := ht
    cases hs : (current.getD (.start "expression")).step t with
    | none =>
      rw [List.cons_append, finishAll] at h
      simp only [ht, Bool.false_eq_true, and_false, if_false, hs] at h
      cases h
    | some p =>
      rw [List.cons_append, finishAll_cons hs] at h
      obtain ⟨ts, rfl⟩ := exists_tokens_of_finishAll found _ _ hfound h
      exact ⟨t :: ts, rfl⟩

end Parser

namespace Program

/-- What is read from a text that is a program derives from the tokens that the scanner finds in it. -/
theorem exists_derivations_of_parse {text : List Char} {p : Program} (h : parse text = .ok p) :
    ∃ ds, (Cursor.start text).Yields (Derivation.words ds) ∧ p.exprs = Derivation.exprs ds := by
  obtain ⟨found, eof, hresults, heof, hfound⟩ := (Cursor.start text).results_eq
  have hread := parse_map_exprs text
  rw [h, hresults] at hread
  cases hf : Parser.finishAll (Parser.start text).eof [] none (found ++ [.ok eof]) with
  | mk result q =>
    rw [hf] at hread
    cases hread
    obtain ⟨ts, rfl⟩ := Parser.exists_tokens_of_finishAll found [] none hfound hf
    have hts : ∀ t ∈ ts, t.isEof = false := fun t ht => hfound _ (List.mem_map_of_mem ht)
    obtain ⟨ds, rfl⟩ := Parser.words_of_finishAll heof ts.length ts [] (Nat.le_refl _) hts hf
    rw [Parser.finishAll_words heof ds []] at hf
    have hyields := (Cursor.yields_iff _ _).2 ⟨hts, eof, heof, hresults⟩
    exact ⟨ds, hyields, Except.ok.inj (congrArg Prod.fst hf).symm⟩

/-- Every node of a program that is read from a text derives from consecutive tokens out of those that the
scanner finds there. -/
theorem exists_derivation_of_node {text : List Char} {p : Program} (h : parse text = .ok p) {e : Expr}
    (he : p.Node e) :
    ∃ d : Derivation, d.expr = e ∧ d.word.map .ok <:+: (Cursor.start text).results := by
  obtain ⟨ds, hyields, hp⟩ := exists_derivations_of_parse h
  obtain ⟨-, eof, -, hresults⟩ := (Cursor.yields_iff _ _).1 hyields
  obtain ⟨d, rfl, hd⟩ := he.exists_derivation hp
  refine ⟨d, rfl, ?_⟩
  rw [hresults]
  exact (hd.map _).trans (List.prefix_append _ _).isInfix

/-- The token that introduces a node of a program that is read from a text is found there. -/
theorem introduction_mem_results {text : List Char} {p : Program} (h : parse text = .ok p) {e : Expr}
    (he : p.Node e) : .ok e.introduction ∈ (Cursor.start text).results := by
  obtain ⟨d, rfl, hd⟩ := exists_derivation_of_node h he
  exact hd.subset (List.mem_map_of_mem d.introduction_mem_word)

end Program

end SmallLisp

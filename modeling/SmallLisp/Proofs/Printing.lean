import Mathlib.Data.Nat.Digits.Lemmas
import SmallLisp.Proofs.Reading
import SmallLisp.Proofs.Scanning

/-!
# Printing and reading

An expression is printed in its parenthesised form (`Expr.lexemes`), each lexeme as `Writes` says, with
single spaces between them. Main statement: `Program.parse_printed`, a text printed so is read as the
expressions that it was printed from, up to positions.

The proof goes in two steps. The scanner finds the lexemes that were written, as a space keeps each
apart from the next (`Cursor.results_spaced`). Tokens with the lexemes of an expression are the word of
a derivation of it (`Expr.exists_derivation`).
-/

set_option autoImplicit false

namespace SmallLisp

open Token SmallLisp.Derivation

/-! ## Writing a lexeme -/

/-- The content of a string literal as it is written between such quotes. -/
def escapedFor (quote : Char) (content : List Char) : List Char :=
  content.flatMap fun c => if c = '\\' ∨ c = quote then ['\\', c] else [c]

/-- How a lexeme is written: operators and keywords as they are spelled, integers in decimal, strings
between quotes of either sort. -/
inductive Writes : List Char → Lexeme → Prop
  | punct (p : Punct) : Writes p.spelling.toList (.punct p)
  | keyword (k : Keyword) : Writes k.spelling.toList (.keyword k)
  | int (n : Int) : Writes (decimal n).toList (.int n)
  | ident (x : String) : Writes x.toList (.ident x)
  | string {quote : Char} (hq : IsQuote quote) (s : String) :
      Writes (quote :: (escapedFor quote s.toList ++ [quote])) (.string s)

/-- A name that is read as a name: a word of at most so many characters that is no keyword. -/
structure IsIdentifier (x : String) : Prop where
  word : IsWord x.toList
  length : x.toList.length ≤ maxIdentLength
  free : ∀ k : Keyword, x.toList ≠ k.spelling.toList

theorem encodes_escapedFor {quote : Char} (hq : IsQuote quote) (content : List Char) :
    Encodes quote (escapedFor quote content) content := by
  induction content with
  | nil => exact .nil
  | cons c content ih =>
    rw [escapedFor, List.flatMap_cons]
    split
    · rename_i hc
      have hu : unescape c = c := by
        obtain rfl | rfl := hc
        · rfl
        · obtain rfl | rfl := hq <;> rfl
      have := Encodes.escaped c ih
      rwa [hu] at this
    · rename_i hc
      rw [not_or] at hc
      exact .plain hc.2 hc.1 ih

/-- The decimal digits of a number denote it. -/
theorem exists_decimalDigits (n : Nat) : ∃ ds : List (Char × Nat), ds ≠ [] ∧
    (∀ d ∈ ds, d ∈ Radix.decimal.digits) ∧ ds.map (·.1) = decimalDigits n ∧
      Nat.ofDigits 10 (ds.map (·.2)).reverse = n := by
  have hdigit : ∀ k < 10, (Nat.digitChar k, k) ∈ Radix.decimal.digits := by decide
  induction n using Nat.strongRecOn with
  | ind n ih =>
    by_cases hn : n < 10
    · refine ⟨[(Nat.digitChar n, n)], by simp, ?_, ?_, by simp⟩
      · simpa using hdigit n hn
      · exact (Nat.toDigits_of_lt_base hn).symm
    · have hn : 10 ≤ n := Nat.le_of_not_lt hn
      obtain ⟨ds, -, hds, hfst, hval⟩ := ih (n / 10) (by omega)
      refine ⟨ds ++ [(Nat.digitChar (n % 10), n % 10)], by simp, ?_, ?_, ?_⟩
      · rw [List.forall_mem_append]
        exact ⟨hds, by simpa using hdigit (n % 10) (Nat.mod_lt n (by decide))⟩
      · rw [List.map_append, hfst]
        exact (Nat.toDigits_of_base_le (by decide) hn).symm
      · rw [List.map_append, List.reverse_append, List.map_singleton, List.reverse_singleton,
          List.singleton_append, Nat.ofDigits_cons, hval]
        exact Nat.mod_add_div n 10

theorem spells_decimal (n : Int) : Spells (decimal n).toList (.int n) := by
  cases n with
  | ofNat n =>
    obtain ⟨ds, hne, hds, hfst, hval⟩ := exists_decimalDigits n
    have := Spells.int false .decimal hne hds
    simp only [minusSign, Radix.mark, List.nil_append, hfst, Radix.base, hval, Bool.false_eq_true,
      if_false, one_mul] at this
    rw [decimal, String.toList_ofList]
    exact this
  | negSucc n =>
    obtain ⟨ds, hne, hds, hfst, hval⟩ := exists_decimalDigits (n + 1)
    have := Spells.int true .decimal hne hds
    simp only [minusSign, Radix.mark, List.append_nil, hfst, Radix.base, hval, if_true,
      neg_mul, one_mul] at this
    rw [decimal, String.toList_ofList]
    exact this

/-- What is written spells the lexeme, if it is no name that cannot be read as one. -/
theorem Writes.spells {w : List Char} {x : Lexeme} (h : Writes w x)
    (hx : ∀ name, x = .ident name → IsIdentifier name) : Spells w x := by
  cases h with
  | punct p => exact .punct p
  | keyword k => exact .keyword k
  | int n => exact spells_decimal n
  | ident x =>
    obtain ⟨hw, hlen, hk⟩ := hx x rfl
    have := Spells.ident hw hlen hk
    rwa [String.ofList_toList] at this
  | string hq s =>
    have := Spells.string hq (encodes_escapedFor hq s.toList)
    rwa [String.ofList_toList] at this

/-! ## Scanning what is written -/

/-- Written lexemes, each behind a space. -/
def spaced (ws : List (List Char)) : List Char := ws.flatMap (' ' :: ·)

theorem intercalate_eq_spaced (w : List Char) (ws : List (List Char)) :
    [' '].intercalate (w :: ws) = w ++ spaced ws := by
  induction ws generalizing w with
  | nil => simp [spaced]
  | cons v ws ih =>
    rw [List.intercalate_cons_cons, ih]
    simp [spaced]

theorem separates_spaced (ws : List (List Char)) : Lexeme.Separates (spaced ws) := by
  intro c hc
  cases ws with
  | nil => cases hc
  | cons w ws =>
    obtain rfl : ' ' = c := by simpa [spaced] using hc
    decide

/-- Lexemes that are written with single spaces between them are laid out. -/
theorem laid_spaced {ws : List (List Char)} {xs : List Lexeme} (h : List.Forall₂ Spells ws xs) :
    Laid ([' '].intercalate ws) xs := by
  have hspaced {ws : List (List Char)} {xs : List Lexeme} (h : List.Forall₂ Spells ws xs) :
      Laid (spaced ws) xs := by
    induction h with
    | nil => exact .nil (.nothing (by simp))
    | @cons w x ws xs hx _ ih =>
      have hl : Layout [' '] (w ++ spaced ws) := .blank (by decide) (hx.layout _)
      exact .cons hl hx (separates_spaced ws) ih
  cases h with
  | nil => exact .nil (.nothing (by simp))
  | @cons w x ws xs hx hws =>
    rw [intercalate_eq_spaced]
    exact .cons (hx.layout _) hx (separates_spaced ws) (hspaced hws)

namespace Cursor

/-- The calls found tokens with these lexemes, and then the end of the text. -/
def Finds (found : List Scanned) (xs : List Lexeme) : Prop :=
  ∃ (ts : List Token) (eof : Token), found = ts.map .ok ++ [.ok eof] ∧
    ts.map (·.lexeme) = xs ∧ (∀ t ∈ ts, t.isEof = false) ∧ eof.isEof = true

/-- The scanner finds the lexemes that were written with single spaces between them. -/
theorem results_spaced {ws : List (List Char)} {xs : List Lexeme}
    (h : List.Forall₂ Spells ws xs) : Finds (start ([' '].intercalate ws)).results xs := by
  obtain ⟨ts, hts, hxs⟩ := (laid_spaced h).yields .start
  obtain ⟨hinner, eof, he, hr⟩ := (yields_iff _ _).1 hts
  exact ⟨ts, eof, hr, hxs, hinner, he⟩

end Cursor

/-! ## Printing an expression -/

namespace Expr

mutual

/-- The lexemes of an expression in its parenthesised form. -/
def lexemes : Expr → List Lexeme
  | literal l _ => [l.lexeme]
  | name x _ => [.ident x]
  | unit _ => [.punct .openParen, .punct .closeParen]
  | call callee args _ =>
    .punct .openParen :: callee.lexeme :: (lexemesAll args ++ [.punct .closeParen])
  | function params body _ =>
    .punct .openParen :: .keyword .functionWord ::
      (params.map .ident ++ (body.lexemes ++ [.punct .closeParen]))
  | ifThen cond yes _ =>
    .punct .openParen :: .keyword .ifWord ::
      (cond.lexemes ++ (yes.lexemes ++ [.punct .closeParen]))
  | ifThenElse cond yes no _ =>
    .punct .openParen :: .keyword .ifWord ::
      (cond.lexemes ++ (yes.lexemes ++ (no.lexemes ++ [.punct .closeParen])))
  | declare x _ =>
    [.punct .openParen, .keyword .letWord, .ident x, .punct .closeParen]
  | declareAs x init _ =>
    .punct .openParen :: .keyword .letWord :: .ident x ::
      (init.lexemes ++ [.punct .closeParen])
  | assign x value _ =>
    .punct .openParen :: .punct .assign :: .ident x :: (value.lexemes ++ [.punct .closeParen])
  | whileLoop cond body _ =>
    .punct .openParen :: .keyword .whileWord ::
      (cond.lexemes ++ (body.lexemes ++ [.punct .closeParen]))
  | forLoop init cond post body _ =>
    .punct .openParen :: .keyword .forWord ::
      (init.lexemes ++ (cond.lexemes ++ (post.lexemes ++
        (body.lexemes ++ [.punct .closeParen]))))

/-- The lexemes of several expressions. -/
def lexemesAll : List Expr → List Lexeme
  | [] => []
  | e :: es => e.lexemes ++ lexemesAll es

end

mutual

/-- The expression with all its nodes at one place. -/
def unplaced : Expr → Expr
  | literal l _ => literal l .start
  | name x _ => name x .start
  | unit _ => unit .start
  | call callee args _ => call callee (unplacedAll args) .start
  | function params body _ => function params body.unplaced .start
  | ifThen cond yes _ => ifThen cond.unplaced yes.unplaced .start
  | ifThenElse cond yes no _ => ifThenElse cond.unplaced yes.unplaced no.unplaced .start
  | declare x _ => declare x .start
  | declareAs x init _ => declareAs x init.unplaced .start
  | assign x value _ => assign x value.unplaced .start
  | whileLoop cond body _ => whileLoop cond.unplaced body.unplaced .start
  | forLoop init cond post body _ =>
    forLoop init.unplaced cond.unplaced post.unplaced body.unplaced .start

/-- Several expressions with all their nodes at one place. -/
def unplacedAll : List Expr → List Expr
  | [] => []
  | e :: es => e.unplaced :: unplacedAll es

end

/-- Every name in some expressions can be read as a name. -/
def WellNamed (es : List Expr) : Prop := ∀ x, .ident x ∈ lexemesAll es → IsIdentifier x

end Expr

/-! ## Tokens of an expression -/

/-- The lexemes of some tokens. -/
abbrev lexemesOf (ts : List Token) : List Lexeme := ts.map (·.lexeme)

theorem token_of_lexemes {ts : List Token} {x : Lexeme} {r : List Lexeme}
    (h : lexemesOf ts = x :: r) : ∃ pos us, ts = ⟨x, pos⟩ :: us ∧ lexemesOf us = r := by
  obtain ⟨⟨y, pos⟩, us, rfl, rfl, hr⟩ := List.map_eq_cons_iff.1 h
  exact ⟨pos, us, rfl, hr⟩

theorem form_of_lexemes {ts : List Token} {x : Lexeme} {r : List Lexeme}
    (h : lexemesOf ts = .punct .openParen :: x :: r) :
    ∃ o pos us, ts = opening o :: ⟨x, pos⟩ :: us ∧ lexemesOf us = r := by
  obtain ⟨o, us, rfl, hus⟩ := token_of_lexemes h
  obtain ⟨pos, vs, rfl, hvs⟩ := token_of_lexemes hus
  exact ⟨o, pos, vs, rfl, hvs⟩

theorem names_of_lexemes {xs : List String} {r : List Lexeme} :
    ∀ {ts : List Token}, lexemesOf ts = xs.map .ident ++ r →
      ∃ (ps : List (String × Position)) (us : List Token), ts = ps.map ident ++ us ∧
        ps.map (·.1) = xs ∧ lexemesOf us = r := by
  induction xs with
  | nil => exact fun {ts} h => ⟨[], ts, rfl, rfl, h⟩
  | cons x xs ih =>
    intro ts h
    obtain ⟨pos, us, rfl, hus⟩ := token_of_lexemes h
    obtain ⟨ps, vs, rfl, rfl, hvs⟩ := ih hus
    exact ⟨(x, pos) :: ps, vs, rfl, rfl, hvs⟩

mutual

/-- Tokens that begin with the lexemes of an expression begin with the word of a derivation of it. -/
theorem exists_derivation : ∀ (e : Expr) {r : List Lexeme} {ts : List Token},
    lexemesOf ts = e.lexemes ++ r → ∃ (d : Derivation) (us : List Token),
      ts = d.word ++ us ∧ lexemesOf us = r ∧ d.expr.unplaced = e.unplaced
  | .literal l _, r, ts, h => by
    obtain ⟨pos, us, rfl, hus⟩ := token_of_lexemes h
    exact ⟨.literal l pos, us, rfl, hus, rfl⟩
  | .name x _, r, ts, h => by
    obtain ⟨pos, us, rfl, hus⟩ := token_of_lexemes h
    exact ⟨.name (x, pos), us, rfl, hus, rfl⟩
  | .unit _, r, ts, h => by
    obtain ⟨o, t₁, rfl, h₁⟩ := token_of_lexemes h
    obtain ⟨c, us, rfl, hus⟩ := token_of_lexemes h₁
    exact ⟨.unit o c, us, rfl, hus, rfl⟩
  | .call f args _, r, ts, h => by
    simp only [Expr.lexemes, List.cons_append, List.append_assoc] at h
    obtain ⟨o, p, t₁, rfl, h₁⟩ := form_of_lexemes h
    obtain ⟨ds, t₂, rfl, h₂, hds⟩ := exists_derivations args h₁
    obtain ⟨c, us, rfl, hus⟩ := token_of_lexemes h₂
    exact ⟨.call o f p ds c, us, by simp [word], hus,
      by simp only [Derivation.expr, Expr.unplaced, hds]⟩
  | .function xs b _, r, ts, h => by
    simp only [Expr.lexemes, List.cons_append, List.append_assoc] at h
    obtain ⟨o, p, t₁, rfl, h₁⟩ := form_of_lexemes h
    obtain ⟨ps, t₂, rfl, rfl, h₂⟩ := names_of_lexemes h₁
    obtain ⟨d, t₃, rfl, h₃, hd⟩ := exists_derivation b h₂
    obtain ⟨c, us, rfl, hus⟩ := token_of_lexemes h₃
    exact ⟨.function o p ps d c, us, by simp [word], hus,
      by simp only [Derivation.expr, Expr.unplaced, hd]⟩
  | .ifThen a b _, r, ts, h => by
    simp only [Expr.lexemes, List.cons_append, List.append_assoc] at h
    obtain ⟨o, p, t₁, rfl, h₁⟩ := form_of_lexemes h
    obtain ⟨da, t₂, rfl, h₂, ha⟩ := exists_derivation a h₁
    obtain ⟨db, t₃, rfl, h₃, hb⟩ := exists_derivation b h₂
    obtain ⟨c, us, rfl, hus⟩ := token_of_lexemes h₃
    exact ⟨.ifThen o p da db c, us, by simp [word], hus,
      by simp only [Derivation.expr, Expr.unplaced, ha, hb]⟩
  | .ifThenElse a b e _, r, ts, h => by
    simp only [Expr.lexemes, List.cons_append, List.append_assoc] at h
    obtain ⟨o, p, t₁, rfl, h₁⟩ := form_of_lexemes h
    obtain ⟨da, t₂, rfl, h₂, ha⟩ := exists_derivation a h₁
    obtain ⟨db, t₃, rfl, h₃, hb⟩ := exists_derivation b h₂
    obtain ⟨de, t₄, rfl, h₄, he⟩ := exists_derivation e h₃
    obtain ⟨c, us, rfl, hus⟩ := token_of_lexemes h₄
    exact ⟨.ifThenElse o p da db de c, us, by simp [word], hus,
      by simp only [Derivation.expr, Expr.unplaced, ha, hb, he]⟩
  | .declare x _, r, ts, h => by
    obtain ⟨o, p, t₁, rfl, h₁⟩ := form_of_lexemes h
    obtain ⟨px, t₂, rfl, h₂⟩ := token_of_lexemes h₁
    obtain ⟨c, us, rfl, hus⟩ := token_of_lexemes h₂
    exact ⟨.declare o p (x, px) c, us, rfl, hus, rfl⟩
  | .declareAs x a _, r, ts, h => by
    simp only [Expr.lexemes, List.cons_append, List.append_assoc] at h
    obtain ⟨o, p, t₁, rfl, h₁⟩ := form_of_lexemes h
    obtain ⟨px, t₂, rfl, h₂⟩ := token_of_lexemes h₁
    obtain ⟨da, t₃, rfl, h₃, ha⟩ := exists_derivation a h₂
    obtain ⟨c, us, rfl, hus⟩ := token_of_lexemes h₃
    exact ⟨.declareAs o p (x, px) da c, us, by simp [word], hus,
      by simp only [Derivation.expr, Expr.unplaced, ha]⟩
  | .assign x a _, r, ts, h => by
    simp only [Expr.lexemes, List.cons_append, List.append_assoc] at h
    obtain ⟨o, p, t₁, rfl, h₁⟩ := form_of_lexemes h
    obtain ⟨px, t₂, rfl, h₂⟩ := token_of_lexemes h₁
    obtain ⟨da, t₃, rfl, h₃, ha⟩ := exists_derivation a h₂
    obtain ⟨c, us, rfl, hus⟩ := token_of_lexemes h₃
    exact ⟨.assign o p (x, px) da c, us, by simp [word], hus,
      by simp only [Derivation.expr, Expr.unplaced, ha]⟩
  | .whileLoop a b _, r, ts, h => by
    simp only [Expr.lexemes, List.cons_append, List.append_assoc] at h
    obtain ⟨o, p, t₁, rfl, h₁⟩ := form_of_lexemes h
    obtain ⟨da, t₂, rfl, h₂, ha⟩ := exists_derivation a h₁
    obtain ⟨db, t₃, rfl, h₃, hb⟩ := exists_derivation b h₂
    obtain ⟨c, us, rfl, hus⟩ := token_of_lexemes h₃
    exact ⟨.whileLoop o p da db c, us, by simp [word], hus,
      by simp only [Derivation.expr, Expr.unplaced, ha, hb]⟩
  | .forLoop a b e f _, r, ts, h => by
    simp only [Expr.lexemes, List.cons_append, List.append_assoc] at h
    obtain ⟨o, p, t₁, rfl, h₁⟩ := form_of_lexemes h
    obtain ⟨da, t₂, rfl, h₂, ha⟩ := exists_derivation a h₁
    obtain ⟨db, t₃, rfl, h₃, hb⟩ := exists_derivation b h₂
    obtain ⟨de, t₄, rfl, h₄, he⟩ := exists_derivation e h₃
    obtain ⟨df, t₅, rfl, h₅, hf⟩ := exists_derivation f h₄
    obtain ⟨c, us, rfl, hus⟩ := token_of_lexemes h₅
    exact ⟨.forLoop o p da db de df c, us, by simp [word], hus,
      by simp only [Derivation.expr, Expr.unplaced, ha, hb, he, hf]⟩

theorem exists_derivations : ∀ (es : List Expr) {r : List Lexeme} {ts : List Token},
    lexemesOf ts = Expr.lexemesAll es ++ r → ∃ (ds : List Derivation) (us : List Token),
      ts = words ds ++ us ∧ lexemesOf us = r ∧
        Expr.unplacedAll (exprs ds) = Expr.unplacedAll es
  | [], r, ts, h => ⟨[], ts, rfl, h, rfl⟩
  | e :: es, r, ts, h => by
    rw [Expr.lexemesAll, List.append_assoc] at h
    obtain ⟨d, t₁, rfl, h₁, hd⟩ := exists_derivation e h
    obtain ⟨ds, us, rfl, hus, hds⟩ := exists_derivations es h₁
    refine ⟨d :: ds, us, by rw [words, List.append_assoc], hus, ?_⟩
    simp only [exprs, Expr.unplacedAll, hd, hds]

end

/-! ## The round trip -/

theorem spells_of_writes {ws : List (List Char)} {xs : List Lexeme}
    (h : List.Forall₂ Writes ws xs) (hx : ∀ x, .ident x ∈ xs → IsIdentifier x) :
    List.Forall₂ Spells ws xs := by
  induction h with
  | nil => exact .nil
  | cons hw _ ih =>
    refine .cons (hw.spells fun x hname => hx x (by simp [hname])) (ih fun x hmem => hx x ?_)
    exact List.mem_cons_of_mem _ hmem

/-- **What is printed is read back**, up to positions. -/
theorem Program.parse_printed {es : List Expr} (hes : Expr.WellNamed es) {ws : List (List Char)}
    (hws : List.Forall₂ Writes ws (Expr.lexemesAll es)) :
    ∃ p, parse ([' '].intercalate ws) = .ok p ∧
      Expr.unplacedAll p.exprs = Expr.unplacedAll es := by
  obtain ⟨ts, eof, hr, hts, hinner, he⟩ := Cursor.results_spaced (spells_of_writes hws hes)
  obtain ⟨ds, us, rfl, hus, hds⟩ := exists_derivations es (hts.trans (List.append_nil _).symm)
  obtain rfl : us = [] := List.map_eq_nil_iff.1 hus
  rw [List.append_nil] at hr hinner
  have hfaces : (Parser.start ([' '].intercalate ws)).Faces (words ds) eof := ⟨rfl, hr, hinner, he⟩
  refine ⟨⟨((words ds).head?.getD eof).position, Derivation.exprs ds⟩, ?_, hds⟩
  rw [parse, hfaces.program_eq, Parser.finishAll_words he]
  rfl

/-- A negative number, an operator of two characters, and a string that holds its quote, a backslash
and a semicolon are read back. -/
theorem Program.parse_printed_string :
    let es : List Expr :=
      [.function ["x"] (.call (.operator (.relation .lessEqual))
        [.literal (.int (-5)) .start, .literal (.string "'\\;") .start] .start) .start]
    let ws := ["(", "function", "x", "(", "<=", "-5", "'\\'\\\\;'", ")", ")"].map String.toList
    Expr.WellNamed es ∧ List.Forall₂ Writes ws (Expr.lexemesAll es) ∧
      ∃ p, parse ([' '].intercalate ws) = .ok p ∧
        Expr.unplacedAll p.exprs = Expr.unplacedAll es := by
  intro es ws
  have hes : Expr.WellNamed es := by
    intro x hx
    obtain rfl : x = "x" := by
      simpa [es, Expr.lexemesAll, Expr.lexemes, Callee.lexeme, Operator.lexeme, Literal.lexeme]
        using hx
    exact ⟨.intro (by decide) (by simp), by decide, fun k => by cases k <;> decide⟩
  have hfive : Writes "-5".toList (.int (-5)) := by
    have hdecimal : decimal (-5) = "-5" := by decide
    exact hdecimal ▸ .int (-5)
  have hws : List.Forall₂ Writes ws (Expr.lexemesAll es) :=
    .cons (.punct .openParen) <| .cons (.keyword .functionWord) <| .cons (.ident "x") <|
    .cons (.punct .openParen) <| .cons (.punct .lessEqual) <| .cons hfive <|
    .cons (.string (.inl rfl) "'\\;") <| .cons (.punct .closeParen) <|
    .cons (.punct .closeParen) .nil
  exact ⟨hes, hws, parse_printed hes hws⟩

end SmallLisp

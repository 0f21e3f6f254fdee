import SmallLisp.Proofs.Places
import SmallLisp.Proofs.Printing
import SmallLisp.Proofs.Relocation

/-!
# Layout does not matter

What a call of the scanner has read of a text is a piece that spells the lexeme which was found
(`Cursor.Yields.spells`). Pieces that are put together again with other blanks and comments between
them are laid out (`laid_of_spells`), so the scanner finds the same lexemes, and as the reader looks at
no place, it comes to the same expressions or the same complaint (`Program.alike_of_tokenize`). Main
statement: `tokenize_respaced`.
-/

set_option autoImplicit false

namespace SmallLisp

/-! ## Separators -/

/-- What may stand between two lexemes: spaces, tabs and newlines, and comments, each with the newline
that ends it. -/
inductive Separator : List Char → Prop
  | nil : Separator []
  | blank {c : Char} {rest : List Char} (hc : c = ' ' ∨ c = '\t' ∨ c = '\n') (h : Separator rest) :
      Separator (c :: rest)
  | comment {body rest : List Char} (hbody : '\n' ∉ body) (h : Separator rest) :
      Separator (';' :: (body ++ '\n' :: rest))

namespace Separator

variable {s rest : List Char}

/-- A separator is passed over. -/
theorem layout (h : Separator s) (hrest : Layout [] rest) : Layout s rest := by
  induction h with
  | nil => exact hrest
  | blank hc _ ih =>
    refine .blank ?_ ih
    obtain rfl | rfl | rfl := hc <;> decide
  | @comment body s hbody _ ih =>
    refine .comment ⟨fun c hc => ?_, ?_⟩ (.blank (by decide) ih)
    · exact decide_eq_true (ne_of_mem_of_not_mem hc hbody)
    · rintro _ ⟨rfl⟩
      decide

/-- A separator of some width keeps a lexeme apart from what follows. -/
theorem separates (h : Separator s) (hs : s ≠ []) (rest : List Char) :
    Lexeme.Separates (s ++ rest) := by
  cases h with
  | nil => exact absurd rfl hs
  | blank hc => obtain rfl | rfl | rfl := hc <;> rintro _ ⟨rfl⟩ <;> decide
  | comment => rintro _ ⟨rfl⟩; decide

end Separator

/-- Pieces of text with separators behind them. -/
def interleave (ws seps : List (List Char)) : List Char := (List.zipWith (· ++ ·) ws seps).flatten

/-- Pieces that spell lexemes and have separators between them are laid out. Only what stands behind
the last may be empty. -/
theorem laid_of_spells {ws : List (List Char)} {xs : List Lexeme} (h : List.Forall₂ Spells ws xs) :
    ∀ {before : List Char} {seps : List (List Char)}, Separator before → seps.length = ws.length →
      (∀ s ∈ seps, Separator s) → (∀ s ∈ seps.dropLast, s ≠ []) →
      Laid (before ++ interleave ws seps) xs := by
  induction h with
  | nil =>
    intro before seps hbefore _ _ _
    simp only [interleave, List.zipWith_nil_left, List.flatten_nil, List.append_nil]
    exact .nil (hbefore.layout (.nothing (by simp)))
  | @cons w x ws xs hx _ ih =>
    intro before seps hbefore hlen hseps hne
    cases seps with
    | nil => cases hlen
    | cons s seps =>
      obtain ⟨hs, hseps⟩ := List.forall_mem_cons.1 hseps
      have hlen : seps.length = ws.length := Nat.succ.inj hlen
      have hrest : interleave (w :: ws) (s :: seps) = w ++ (s ++ interleave ws seps) := by
        simp [interleave]
      have hsep : Lexeme.Separates (s ++ interleave ws seps) := by
        by_cases hempty : s = []
        · -- so this is the last, and nothing follows
          obtain rfl : seps = [] := by
            by_contra hcons
            obtain ⟨s', seps, rfl⟩ := List.exists_cons_of_ne_nil hcons
            exact hne s List.mem_cons_self hempty
          simp [hempty, interleave, Lexeme.Separates]
        · exact hs.separates hempty _
      have hne : ∀ s ∈ seps.dropLast, s ≠ [] := by
        intro s' hs'
        cases seps with
        | nil => cases hs'
        | cons s'' seps => exact hne s' (List.mem_cons_of_mem _ hs')
      rw [hrest]
      exact .cons (hbefore.layout (hx.layout _)) hx hsep (ih hs hlen hseps hne)

/-! ## The pieces of a text -/

namespace Cursor

/-- Where what a call has found begins. -/
def foundAt : Scanned → Position
  | .ok t => t.position
  | .error e => e.position

/-- The text between the place of what a call has found and the place where it has left the cursor. -/
def piece (text : List Char) (found : Scanned) (stop : Position) : List Char :=
  (text.take stop.offset).drop (foundAt found).offset

/-- The pieces of a text that the first calls have read. -/
def pieces (text : List Char) (calls : Nat) : List (List Char) :=
  (trace calls (start text)).map fun call => piece text call.1 call.2

/-- A call that finds a token has read what spells it. -/
theorem StandsIn.spells {text : List Char} {c after : Cursor} {t : Token} (h : c.StandsIn text)
    (hn : c.next = (.ok t, after)) (ht : t.isEof = false) :
    Spells (piece text (.ok t) after.position) t.lexeme := by
  obtain ⟨skipped, rest, hc, hl⟩ := c.exists_skipped
  have hstep := step_next hc hl
  rw [hn] at hstep
  cases hstep with
  | eof => cases ht
  | @token w tail x hrest hx =>
    obtain ⟨before, htext, hp⟩ := h
    have hpiece : piece text (.ok ⟨x, c.position.through skipped⟩)
        ((c.position.through skipped).through w) = w := by
      have htext : text = (before ++ skipped ++ w) ++ tail := by
        rw [htext, hc, hrest]
        simp only [List.append_assoc]
      have hstart : (c.position.through skipped).offset = (before ++ skipped).length := by
        rw [hp, Position.through_behind]
        rfl
      have hstop : ((c.position.through skipped).through w).offset =
          (before ++ skipped ++ w).length := by
        rw [hp, Position.through_behind, Position.through_behind]
        rfl
      rw [piece, foundAt, hstop, hstart, htext, List.take_left, List.drop_left]
    rw [hpiece]
    exact hx

/-- The pieces of a text spell the lexemes of its tokens. -/
theorem Yields.spells {text : List Char} {c : Cursor} {ts : List Token} (h : c.Yields ts)
    (hc : c.StandsIn text) :
    List.Forall₂ Spells ((trace ts.length c).map fun call => piece text call.1 call.2)
      (lexemesOf ts) := by
  induction h with
  | nil => exact .nil
  | @cons c after t ts hn ht _ ih =>
    have hafter := hc.next
    have htrace : trace (ts.length + 1) c = (c.next.1, c.next.2.position) :: trace ts.length c.next.2 :=
      rfl
    rw [hn] at hafter htrace
    rw [List.length_cons, htrace]
    exact .cons (hc.spells hn ht) (ih hafter)

end Cursor

/-! ## Texts without faults -/

theorem tokenize_collect_iff (found : List Scanned) :
    ∀ tokens : List Token, tokenize.collect found = (tokens, none) ↔ found = tokens.map .ok := by
  induction found with
  | nil => intro tokens; cases tokens <;> simp [tokenize.collect]
  | cons s found ih =>
    intro tokens
    cases s with
    | error e => cases tokens <;> simp [tokenize.collect]
    | ok t =>
      cases tokens with
      | nil => simp [tokenize.collect]
      | cons u tokens => simp [tokenize.collect, Prod.ext_iff, ← ih tokens, and_assoc]

/-- A text has these tokens and no fault if the scanner finds the tokens before the last, and then the
end. -/
theorem tokenize_eq_iff {text : List Char} {tokens : List Token} :
    tokenize text = (tokens, none) ↔ (Cursor.start text).results = tokens.map .ok :=
  tokenize_collect_iff _ tokens

theorem yields_of_tokenize {text : List Char} {tokens : List Token}
    (h : tokenize text = (tokens, none)) :
    ∃ ts eof, tokens = ts ++ [eof] ∧ eof.isEof = true ∧ (Cursor.start text).Yields ts := by
  have hr := tokenize_eq_iff.1 h
  obtain ⟨found, eof, hresults, he, hfound⟩ := (Cursor.start text).results_eq
  obtain ⟨ts, last, rfl, hts, hlast⟩ := List.map_eq_append_iff.1 (hr.symm.trans hresults)
  obtain ⟨_, rfl, ⟨⟩⟩ := List.map_eq_singleton_iff.1 hlast
  subst hts
  refine ⟨ts, eof, rfl, he, (Cursor.yields_iff _ _).2 ⟨fun t ht => ?_, eof, he, hresults⟩⟩
  exact hfound _ (List.mem_map_of_mem ht)

/-! ## Reading without places -/

/-- All places taken for one. -/
def Position.erase (_ : Position) : Position := .start

namespace Expr

mutual

theorem relocate_erase : ∀ e : Expr, e.relocate Position.erase = e.unplaced
  | literal _ _ | name _ _ | unit _ | declare _ _ => rfl
  | call _ args _ => by rw [relocate, unplaced, relocateAll_erase args]; rfl
  | function _ body _ => by rw [relocate, unplaced, relocate_erase body]; rfl
  | ifThen cond yes _ => by rw [relocate, unplaced, relocate_erase cond, relocate_erase yes]; rfl
  | ifThenElse cond yes no _ => by
    rw [relocate, unplaced, relocate_erase cond, relocate_erase yes, relocate_erase no]; rfl
  | declareAs _ init _ => by rw [relocate, unplaced, relocate_erase init]; rfl
  | assign _ value _ => by rw [relocate, unplaced, relocate_erase value]; rfl
  | whileLoop cond body _ => by
    rw [relocate, unplaced, relocate_erase cond, relocate_erase body]; rfl
  | forLoop init cond post body _ => by
    rw [relocate, unplaced, relocate_erase init, relocate_erase cond, relocate_erase post,
      relocate_erase body]
    rfl

theorem relocateAll_erase : ∀ es : List Expr, relocateAll Position.erase es = unplacedAll es
  | [] => rfl
  | e :: es => by rw [relocateAll, unplacedAll, relocate_erase e, relocateAll_erase es]

end

end Expr

/-- But for their places the tokens of a text without faults are its lexemes. -/
theorem results_erased {text : List Char} {tokens : List Token} (h : tokenize text = (tokens, none)) :
    (Cursor.start text).results.map (Cursor.relocateFound Position.erase) =
      (lexemesOf tokens).map fun x => .ok ⟨x, .start⟩ := by
  rw [tokenize_eq_iff.1 h, lexemesOf, List.map_map, List.map_map]
  rfl

/-- Texts in which the same is found, up to places, come to the same, up to places. -/
theorem Program.alike_of_results {text text' : List Char}
    (h : (Cursor.start text).results.map (Cursor.relocateFound Position.erase) =
      (Cursor.start text').results.map (Cursor.relocateFound Position.erase)) :
    relocateOutcome Position.erase ((parse text).map exprs) =
      relocateOutcome Position.erase ((parse text').map exprs) := by
  have hread (text : List Char) := Parser.finishAll_relocate Position.erase (Parser.start text).eof
    (Cursor.start text).results [] none
  rw [parse_map_exprs, parse_map_exprs, ← hread text, ← hread text', h]
  rfl

/-- Reading a text without faults fails in its grammar alone. -/
theorem Program.grammar_of_tokenize {text : List Char} {tokens : List Token} {e : ParseError}
    (h : tokenize text = (tokens, none)) (he : parse text = .error e) : ∃ s, e = .grammar s := by
  have hstop := stop_of_parse he
  rw [tokenize_eq_iff.1 h] at hstop
  generalize hfound : tokens.map Except.ok = found at hstop
  cases hstop with
  | grammar => exact ⟨_, rfl⟩
  | lexical ts fault rest =>
    have hmem : .error fault ∈ tokens.map Except.ok := by simp [hfound]
    obtain ⟨t, -, ht⟩ := List.mem_map.1 hmem
    cases ht

/-- Texts without faults that have the same lexemes are read as the same expressions, or the complaint
about them is the same, up to places. -/
theorem Program.alike_of_tokenize {text text' : List Char} {tokens tokens' : List Token}
    (h : tokenize text = (tokens, none)) (h' : tokenize text' = (tokens', none))
    (hxs : lexemesOf tokens' = lexemesOf tokens) :
    (∀ p, parse text = .ok p → ∃ p', parse text' = .ok p' ∧
      Expr.unplacedAll p'.exprs = Expr.unplacedAll p.exprs) ∧
    (∀ e, parse text = .error e → ∃ s s', e = .grammar s ∧ parse text' = .error (.grammar s') ∧
      s'.expected = s.expected ∧ s'.found.lexeme = s.found.lexeme ∧ s'.note = s.note) := by
  have herased := results_erased h'
  rw [hxs] at herased
  have halike := alike_of_results ((results_erased h).trans herased.symm)
  constructor
  · intro p hp
    rw [hp] at halike
    cases hp' : parse text' with
    | error e => rw [hp'] at halike; cases halike
    | ok p' =>
      rw [hp'] at halike
      have hexprs := (Except.ok.inj halike).symm
      simp only [← Expr.relocateAll_eq_map, Expr.relocateAll_erase] at hexprs
      exact ⟨p', rfl, hexprs⟩
  · intro e he
    obtain ⟨s, rfl⟩ := grammar_of_tokenize h he
    rw [he] at halike
    cases hp' : parse text' with
    | ok p' => rw [hp'] at halike; cases halike
    | error e' =>
      obtain ⟨s', rfl⟩ := grammar_of_tokenize h' hp'
      rw [hp'] at halike
      have hs := ParseError.grammar.inj (Except.error.inj halike.symm)
      refine ⟨s, s', rfl, rfl, congrArg (·.expected) hs, ?_, congrArg (·.note) hs⟩
      exact congrArg (·.found.lexeme) hs

/-- **Layout does not matter.** If the pieces of a text that has no fault are put together again with
other separators, of which only the first and the last may be empty, then the same lexemes are found.
What is read are the same expressions, or the complaint is the same, up to places. -/
theorem tokenize_respaced {text : List Char} {tokens : List Token}
    (h : tokenize text = (tokens, none)) {before : List Char} {seps : List (List Char)}
    (hlen : seps.length + 1 = tokens.length) (hbefore : Separator before)
    (hseps : ∀ s ∈ seps, Separator s) (hne : ∀ s ∈ seps.dropLast, s ≠ []) :
    let text' := before ++ interleave (Cursor.pieces text seps.length) seps
    (∃ tokens', tokenize text' = (tokens', none) ∧ lexemesOf tokens' = lexemesOf tokens) ∧
    (∀ p, Program.parse text = .ok p → ∃ p', Program.parse text' = .ok p' ∧
      Expr.unplacedAll p'.exprs = Expr.unplacedAll p.exprs) ∧
    (∀ e, Program.parse text = .error e → ∃ s s', e = .grammar s ∧
      Program.parse text' = .error (.grammar s') ∧ s'.expected = s.expected ∧
        s'.found.lexeme = s.found.lexeme ∧ s'.note = s.note) := by
  intro text'
  obtain ⟨ts, eof, rfl, he, hts⟩ := yields_of_tokenize h
  have hcount : seps.length = ts.length := by simpa using hlen
  have hspells : List.Forall₂ Spells (Cursor.pieces text seps.length) (lexemesOf ts) := by
    rw [hcount]
    exact hts.spells (Cursor.start_standsIn text)
  have hpieces : seps.length = (Cursor.pieces text seps.length).length := by
    rw [hspells.length_eq, hcount, List.length_map]
  obtain ⟨ts', hts', hxs⟩ : ∃ ts', (Cursor.start text').Yields ts' ∧
      lexemesOf ts' = lexemesOf ts :=
    (laid_of_spells hspells hbefore hpieces hseps hne).yields .start
  obtain ⟨-, eof', he', hr'⟩ := (Cursor.yields_iff _ _).1 hts'
  have htokens' : tokenize text' = (ts' ++ [eof'], none) := by
    rw [tokenize_eq_iff, hr', List.map_append]
    rfl
  have hall : lexemesOf (ts' ++ [eof']) = lexemesOf (ts ++ [eof]) := by
    simp only [lexemesOf, List.map_append, List.map_cons, List.map_nil, Token.isEof_iff.1 he,
      Token.isEof_iff.1 he']
    exact congrArg (· ++ [Lexeme.eof]) hxs
  obtain ⟨hread, hrefused⟩ := Program.alike_of_tokenize h htokens' hall
  exact ⟨⟨_, htokens', hall⟩, hread, hrefused⟩

/-- A semicolon within a string literal begins no comment. -/
theorem tokenize_respaced_string :
    let tokens : List Token := [⟨.punct .openParen, ⟨1, 1, 0⟩⟩, ⟨.ident "f", ⟨1, 2, 1⟩⟩,
      ⟨.string "a;", ⟨1, 3, 2⟩⟩, ⟨.int (-3), ⟨1, 7, 6⟩⟩, ⟨.punct .closeParen, ⟨1, 9, 8⟩⟩,
      ⟨.eof, ⟨1, 11, 10⟩⟩]
    let seps := [['\t'], "; x\n".toList, [' '], ['\n'], []]
    tokenize "(f'a;'-3);".toList = (tokens, none) ∧
      ['\n'] ++ interleave (Cursor.pieces "(f'a;'-3);".toList 5) seps =
        "\n(\tf; x\n'a;' -3\n)".toList ∧
      (∀ s ∈ seps, Separator s) ∧ (∀ s ∈ seps.dropLast, s ≠ []) ∧
      ∃ tokens', tokenize "\n(\tf; x\n'a;' -3\n)".toList = (tokens', none) ∧
        lexemesOf tokens' = lexemesOf tokens := by
  intro tokens seps
  have h : tokenize "(f'a;'-3);".toList = (tokens, none) := by decide +kernel
  have htext : ['\n'] ++ interleave (Cursor.pieces "(f'a;'-3);".toList 5) seps =
      "\n(\tf; x\n'a;' -3\n)".toList := by decide +kernel
  have hcomment : Separator "; x\n".toList :=
    @Separator.comment [' ', 'x'] [] (by decide) .nil
  have hseps : ∀ s ∈ seps, Separator s := by
    simp only [seps, List.forall_mem_cons]
    exact ⟨.blank (.inr (.inl rfl)) .nil, hcomment, .blank (.inl rfl) .nil,
      .blank (.inr (.inr rfl)) .nil, .nil, by simp⟩
  have hne : ∀ s ∈ seps.dropLast, s ≠ [] := by decide
  have hrespaced := (tokenize_respaced h rfl (.blank (.inr (.inr rfl)) .nil) hseps hne).1
  exact ⟨h, htext, hseps, hne, htext ▸ hrespaced⟩

end SmallLisp

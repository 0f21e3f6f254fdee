import SmallLisp.Proofs.Reading
import SmallLisp.Proofs.Scanning

/-!
# Where reading stops

The reader refuses a text at the first token that no program can have there. Whatever has been read so
far can be completed: each open form lacks finitely many operands and its end
(`Configuration.completable`). What is refused does not depend on what stands behind it
(`Parser.Stop`, `Parser.stop_of_finishAll`). Main statement: `Program.parse_stops_earliest`.
-/

set_option autoImplicit false

namespace SmallLisp

open Token SmallLisp.Derivation

/-! ## Completing what is open -/

namespace Progress

/-- Some tokens complete the expression. -/
def Completable (p : Progress) : Prop := ∃ ts e, p.feed ts = some (.done e)

theorem completable_of_step {c : Configuration} (t : Token) {p : Progress} (h : c.step t = some p)
    (hp : p.Completable) : (reading c).Completable := by
  obtain ⟨ts, e, hts⟩ := hp
  exact ⟨t :: ts, e, by rw [feed_reading_cons, h]; exact hts⟩

end Progress

namespace Configuration

open Progress

/-- The forms that are open can be completed, once the innermost has its next part. -/
def Closable (outer : List Context) : Prop := ∀ e, (complete e outer).Completable

/-- Tokens to complete forms with; their places do not matter. -/
abbrev someName : Token := ident ("x", .start)

abbrev someClosing : Token := closing .start

section
variable {outer : List Context} (h : Closable outer)
include h

theorem completable_operand (expected : String) :
    (reading ⟨.operand expected, outer⟩).Completable :=
  completable_of_step someName (enter_ident outer _) (h _)

theorem completable_closing (e : Expr) (expected : String) (note : Option String) :
    (reading ⟨.closing e expected note, outer⟩).Completable :=
  completable_of_step someClosing rfl (h e)

/-- One more form is open: its last parts first, so that each finds what comes after it. -/
theorem closable_cons (ctx : Context) : Closable (ctx :: outer) := by
  have branch : ∀ cond pos, Closable (.ifBranch cond pos :: outer) := fun cond pos e =>
    completable_of_step someClosing (closeOr_closing _ _ _ _) (h _)
  have loop : ∀ cond pos, Closable (.whileBody cond pos :: outer) := fun cond pos e =>
    completable_closing h _ _ _
  have body : ∀ init cond post pos, Closable (.forBody init cond post pos :: outer) :=
    fun init cond post pos e => completable_closing h _ _ _
  have post : ∀ init cond pos, Closable (.forPost init cond pos :: outer) :=
    fun init cond pos e => completable_operand (body init cond e pos) _
  have cond : ∀ init pos, Closable (.forCondition init pos :: outer) :=
    fun init pos e => completable_operand (post init e pos) _
  intro e
  cases ctx with
  | argument callee before pos =>
    exact completable_of_step someClosing (closeOr_closing _ _ _ _) (h _)
  | ifCondition pos => exact completable_operand (branch e pos) _
  | ifBranch cond pos => exact branch cond pos e
  | whileCondition pos => exact completable_operand (loop e pos) _
  | whileBody cond pos => exact loop cond pos e
  | forInit pos => exact completable_operand (cond e pos) _
  | forCondition init pos => exact cond init pos e
  | forPost init cond pos => exact post init cond pos e
  | forBody init cond p pos => exact body init cond p pos e
  | functionBody params pos => exact completable_closing h _ _ _
  | ifAlternative cond yes pos => exact completable_closing h _ _ _
  | initializer x pos => exact completable_closing h _ _ _
  | assigned x pos => exact completable_closing h _ _ _

end

theorem closable : ∀ outer : List Context, Closable outer
  | [] => fun e => ⟨[], e, rfl⟩
  | ctx :: outer => closable_cons (closable outer) ctx

/-- Wherever the reader stands, some tokens complete the expression. -/
theorem completable (c : Configuration) : (reading c).Completable := by
  obtain ⟨focus, outer⟩ := c
  have h := closable outer
  cases focus with
  | operand expected => exact completable_operand h expected
  | head pos => exact completable_of_step someClosing rfl (h (.unit pos))
  | argument callee before pos =>
    exact completable_of_step someClosing (closeOr_closing _ _ _ _) (h _)
  | parameter params pos =>
    refine completable_of_step someName (step_parameter_ident params pos outer _) ?_
    exact completable_of_step someClosing rfl (h _)
  | binder form pos =>
    cases form with
    | declare =>
      refine completable_of_step someName rfl ?_
      exact completable_of_step someClosing (closeOr_closing _ _ _ _) (h _)
    | assign =>
      refine completable_of_step someName rfl ?_
      exact completable_operand (closable_cons h _) _
  | initializer x pos => exact completable_of_step someClosing (closeOr_closing _ _ _ _) (h _)
  | alternative cond yes pos =>
    exact completable_of_step someClosing (closeOr_closing _ _ _ _) (h _)
  | closing e expected note => exact completable_closing h e expected note

/-- No token that the reader takes is the end of the text. -/
theorem isEof_of_step {c : Configuration} {t : Token} {p : Progress} (h : c.step t = some p) :
    t.isEof = false := by
  by_contra he
  rw [c.step_eof (Token.isEof_iff.1 (Bool.not_eq_false _ ▸ he))] at h
  cases h

theorem isEof_of_feed : ∀ (ts : List Token) {c : Configuration} {p : Progress},
    (reading c).feed ts = some p → ∀ t ∈ ts, t.isEof = false
  | [], _, _, _ => by simp
  | t :: ts, c, p, h => by
    rw [feed_reading_cons] at h
    obtain ⟨q, hq, h⟩ := Option.bind_eq_some_iff.1 h
    refine List.forall_mem_cons.2 ⟨isEof_of_step hq, ?_⟩
    cases q with
    | done e =>
      cases ts with
      | nil => simp
      | cons t ts => cases h
    | reading c => exact isEof_of_feed ts h

end Configuration

/-! ## Where a run stops -/

namespace Parser

open SmallLisp.Configuration

/-- What is done and what is begun, one token later. -/
def onward (before : List Expr) : Progress → List Expr × Option Configuration
  | .done e => (e :: before, none)
  | .reading c => (before, some c)

section
variable {before : List Expr} {current : Option Configuration}

theorem finishAll_cons {t : Token} {p : Progress}
    (h : (current.getD (.start "expression")).step t = some p) (eof : Token)
    (rest : List Scanned) :
    finishAll eof before current (.ok t :: rest) =
      finishAll eof (onward before p).1 (onward before p).2 rest := by
  rw [finishAll]
  simp only [isEof_of_step h, Bool.false_eq_true, and_false, if_false, h]
  cases p <;> rfl

/-- With some more tokens, the reader reads on to the end. -/
def Continues (before : List Expr) (current : Option Configuration) (ts : List Token) : Prop :=
  ∃ us, (∀ t ∈ ts ++ us, t.isEof = false) ∧ ∀ eof last : Token, last.isEof = true →
    ∃ es p, finishAll eof before current ((ts ++ us).map .ok ++ [.ok last]) = (.ok es, p)

theorem continues_nil : Continues before current [] := by
  cases current with
  | none =>
    refine ⟨[], by simp, fun eof last hl => ⟨_, _, finishAll_words hl [] before⟩⟩
  | some c =>
    obtain ⟨us, e, hus⟩ := c.completable
    refine ⟨us, isEof_of_feed us hus, fun eof last hl => ?_⟩
    exact ⟨_, _, (finishAll_of_feed us before c hus).trans (finishAll_words hl [] (e :: before))⟩

theorem Continues.cons {t : Token} {p : Progress} {ts : List Token}
    (h : (current.getD (.start "expression")).step t = some p)
    (hts : Continues (onward before p).1 (onward before p).2 ts) :
    Continues before current (t :: ts) := by
  obtain ⟨us, hus, hread⟩ := hts
  refine ⟨us, List.forall_mem_cons.2 ⟨isEof_of_step h, hus⟩, fun eof last hl => ?_⟩
  obtain ⟨es, q, hq⟩ := hread eof last hl
  exact ⟨es, q, by rw [← hq]; exact finishAll_cons h eof _⟩

end

/-- Why a run over what the scanner finds stops: at a fault of the scanner or at a token that is
refused, whatever stands behind it. The tokens before can be continued in either case. -/
inductive Stop (before : List Expr) (current : Option Configuration) :
    List Scanned → ParseError → Prop
  | lexical (ts : List Token) (e : LexicalError) (rest : List Scanned)
      (hts : Continues before current ts) :
      Stop before current (ts.map .ok ++ .error e :: rest) (.lexical e)
  | grammar (ts : List Token) {e : SyntaxError} (rest : List Scanned)
      (hts : Continues before current ts)
      (h : ∀ eof rest, ∃ p, finishAll eof before current (ts.map .ok ++ .ok e.found :: rest) =
        (.error (.grammar e), p)) :
      Stop before current (ts.map .ok ++ .ok e.found :: rest) (.grammar e)

theorem Stop.cons {before : List Expr} {current : Option Configuration} {t : Token}
    {p : Progress} {ahead : List Scanned} {e : ParseError}
    (h : (current.getD (.start "expression")).step t = some p)
    (hs : Stop (onward before p).1 (onward before p).2 ahead e) :
    Stop before current (.ok t :: ahead) e := by
  cases hs with
  | lexical ts e rest hts => exact .lexical (t :: ts) e rest (hts.cons h)
  | grammar ts rest hts hr =>
    refine .grammar (t :: ts) rest (hts.cons h) fun eof rest => ?_
    obtain ⟨q, hq⟩ := hr eof rest
    exact ⟨q, by rw [← hq]; exact finishAll_cons h eof _⟩

theorem stop_of_refused {before : List Expr} {current : Option Configuration} {eof t : Token}
    {rest : List Scanned} {e : ParseError} {q : Parser}
    (hs : (current.getD (.start "expression")).step t = none)
    (h : finishAll eof before current (.ok t :: rest) = (.error e, q)) :
    Stop before current (.ok t :: rest) e := by
  by_cases hend : current.isNone ∧ t.isEof
  · simp [finishAll, hend] at h
  · have hrefuse : ∀ eof rest, finishAll eof before current (.ok t :: rest) =
        refuse (current.getD (.start "expression")).focus t rest eof := by
      intro eof rest
      rw [finishAll]
      simp only [if_neg hend, hs]
    rw [hrefuse] at h
    cases h
    let c := current.getD (.start "expression")
    exact .grammar [] (e := c.focus.refusal t) rest continues_nil
      fun eof rest => ⟨_, hrefuse eof rest⟩

/-- A run that fails on a text stops in it. -/
theorem stop_of_finishAll {eof last : Token} {e : ParseError} {q : Parser}
    (hl : last.isEof = true) :
    ∀ (found : List Scanned) (before : List Expr) (current : Option Configuration),
      finishAll eof before current (found ++ [.ok last]) = (.error e, q) →
      Stop before current (found ++ [.ok last]) e
  | [], before, current, h =>
    stop_of_refused (Configuration.step_eof _ (Token.isEof_iff.1 hl)) h
  | .error fault :: found, before, current, h => by
    cases h
    exact .lexical [] fault _ continues_nil
  | .ok t :: found, before, current, h => by
    cases hs : (current.getD (.start "expression")).step t with
    | none => exact stop_of_refused hs h
    | some p =>
      rw [List.cons_append, finishAll_cons hs] at h
      exact (stop_of_finishAll hl found _ _ h).cons hs

/-- Between two expressions, what can be continued is the beginning of a program. -/
theorem Continues.words {before : List Expr} {ts : List Token} (h : Continues before none ts) :
    ∃ us ds, words ds = ts ++ us := by
  obtain ⟨us, hus, hread⟩ := h
  obtain ⟨es, p, hp⟩ := hread ⟨.eof, .start⟩ ⟨.eof, .start⟩ rfl
  obtain ⟨ds, hds⟩ := words_of_finishAll rfl _ (ts ++ us) before (Nat.le_refl _) hus hp
  exact ⟨us, ds, hds⟩

/-- Reading a program is reading its expressions, behind a look at the first token. -/
theorem program_map_exprs {p : Parser} (hp : p.peeked = none) (ha : p.ahead ≠ []) :
    p.program.1.map Program.exprs = (finishAll p.eof [] none p.ahead).1 := by
  obtain ⟨peeked, ahead, eof⟩ := p
  cases hp
  cases ahead with
  | nil => exact absurd rfl ha
  | cons s rest =>
    cases s with
    | error fault => rfl
    | ok t =>
      simp only [program, peek, upcoming, Option.map_some, Option.toList_some,
        List.singleton_append]
      rcases finishAll eof [] none (.ok t :: rest) with ⟨_ | es, q⟩ <;> rfl

end Parser

/-- What is read as a program are the expressions in front of the end of the text. -/
theorem Program.parse_map_exprs (text : List Char) : (parse text).map Program.exprs =
    (Parser.finishAll (Parser.start text).eof [] none (Cursor.start text).results).1 := by
  obtain ⟨found, last, hr, -⟩ := (Cursor.start text).results_eq
  have ha : (Parser.start text).ahead = found ++ [.ok last] := hr
  exact Parser.program_map_exprs rfl (by simp [ha])

/-- A text that is no program has a place where reading stops. -/
theorem Program.stop_of_parse {text : List Char} {e : ParseError} (h : parse text = .error e) :
    Parser.Stop [] none (Cursor.start text).results e := by
  obtain ⟨found, last, hr, hl, -⟩ := (Cursor.start text).results_eq
  have hread := parse_map_exprs text
  rw [h, hr] at hread
  rw [hr]
  cases hf : Parser.finishAll (Parser.start text).eof [] none (found ++ [.ok last]) with
  | mk result q =>
    rw [hf] at hread
    cases hread
    exact Parser.stop_of_finishAll hl found [] none hf

/-- **A syntax error is reported at the first token that no program can have there**, and a fault of
the scanner only where all tokens before it begin a program. -/
theorem Program.parse_stops_earliest (text : List Char) :
    (∀ e, parse text = .error (.grammar e) → ∃ ts rest,
      (Cursor.start text).results = ts.map .ok ++ .ok e.found :: rest ∧
        (∃ us ds, words ds = ts ++ us) ∧
        (∀ us ds, words ds ≠ ts ++ e.found :: us) ∧
        (e.found.isEof = true → ∀ ds, words ds ≠ ts)) ∧
    (∀ e, parse text = .error (.lexical e) → ∃ ts rest,
      (Cursor.start text).results = ts.map .ok ++ .error e :: rest ∧
        ∃ us ds, words ds = ts ++ us) := by
  have hstop (e : ParseError) (h : parse text = .error e) := stop_of_parse h
  refine ⟨fun e h => ?_, fun e h => ?_⟩
  · generalize (Cursor.start text).results = ahead at hstop ⊢
    cases hstop _ h with
    | grammar ts rest hts hr =>
      refine ⟨ts, rest, rfl, hts.words, fun us ds hds => ?_, fun he ds hds => ?_⟩
      · -- the run over all of the words would be one that fails at the token
        let last : Token := ⟨.eof, .start⟩
        obtain ⟨q, hq⟩ := hr last (us.map .ok ++ [.ok last])
        have hw := @Parser.finishAll_words last last rfl ds []
        simp only [hds, List.map_append, List.map_cons, List.append_assoc, List.cons_append, hq]
          at hw
        cases hw
      · obtain ⟨q, hq⟩ := hr ⟨.eof, .start⟩ []
        rw [← hds, Parser.finishAll_words he ds []] at hq
        cases hq
  · generalize (Cursor.start text).results = ahead at hstop ⊢
    cases hstop _ h with
    | lexical ts e rest hts => exact ⟨ts, rest, rfl, hts.words⟩

/-- A fourth part of an `if` is refused, although the three before it may stand there. -/
theorem Program.parse_fourth_part :
    let text := "(if a b c d)".toList
    let found : Token := ⟨.ident "d", ⟨1, 11, 10⟩⟩
    ∃ e, parse text = .error (.grammar e) ∧ e.found = found ∧ ∃ ts rest,
      (Cursor.start text).results = ts.map .ok ++ .ok found :: rest ∧
        (∃ us ds, words ds = ts ++ us) ∧ ∀ us ds, words ds ≠ ts ++ found :: us := by
  obtain ⟨ts, rest, hr, hts, hno, -⟩ := (parse_stops_earliest "(if a b c d)".toList).1 _ rfl
  exact ⟨_, rfl, rfl, ts, rest, hr, hts, hno⟩

end SmallLisp

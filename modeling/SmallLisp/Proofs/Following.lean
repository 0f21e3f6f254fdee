import SmallLisp.Proofs.Concatenation
import SmallLisp.Proofs.Lookahead
import SmallLisp.Proofs.Prefixes

/-!
# Following the machine

A configuration of the machine that takes a token a step says what is left to do of a recursive descent:
the focus, which part of a form is read next, and the open forms around it, which descents it is called
from. A descent `Follows` a run of the machine if it leads to where the run goes on with what the descent
has yielded, or fails where the run fails and as it does. Sequences follow if their parts do
(`Descent.Follows.bind`), and the machine and a descent that both look at the next token do so together
(`Descent.Looking.follows`).
-/

set_option autoImplicit false

namespace SmallLisp

theorem Focus.refusal_eq {f : Focus} (hf : f.takesRefused = false) (t : Token) :
    f.refusal t = { expected := f.expected t.lexeme, found := t } := by
  cases f <;> first | rfl | cases hf

namespace Parser

/-- What the machine can be made to do from somewhere in a text. -/
abbrev Run (α : Type) := Parser → Except ParseError α × Parser

/-- Goes on with what a run has yielded. -/
def Run.bind {α β : Type} (run : Run α) (next : α → Run β) : Run β := fun p =>
  match run p with
  | (.ok a, p) => next a p
  | (.error e, p) => (.error e, p)

/-- Goes on with an expression from where a token has led. -/
def resume : Progress → Run Expr
  | .done e, p => (.ok e, p)
  | .reading c, p => finish p.eof c p.upcoming

/-- Goes on with a program behind some of its expressions, which are kept newest first. -/
def resumeAll (done : List Expr) : Run (List Expr) := fun p => finishAll p.eof done none p.upcoming

/-- A run that looks at the next token before all else. -/
structure Looks {α : Type} (run : Run α) : Prop where
  token {p p' : Parser} {t : Token} (heof : p.eof.isEof = true) (h : p.peek = (.ok t, p')) :
    run p = run p'
  fault {p p' : Parser} {e : LexicalError} (h : p.peek = (.error e, p')) :
    run p = (.error (.lexical e), p')

/-- A look at the next token leaves what comes next as it is, or finds the end once more. -/
theorem upcoming_of_peek {p p' : Parser} {t : Token} (h : p.peek = (.ok t, p')) :
    p'.eof = p.eof ∧
      (p'.upcoming = p.upcoming ∨ p.upcoming = [] ∧ p'.upcoming = [.ok p.eof]) := by
  obtain ⟨peeked, ahead, eof⟩ := p
  rw [peek] at h
  split at h <;> cases h
  all_goals simp_all [upcoming]

theorem upcoming_of_peek_error {p p' : Parser} {e : LexicalError} (h : p.peek = (.error e, p')) :
    p.upcoming = .error e :: p'.ahead ∧ p' = ⟨none, p'.ahead, p.eof⟩ := by
  obtain ⟨peeked, ahead, eof⟩ := p
  rw [peek] at h
  split at h
  all_goals cases h
  simp_all [upcoming]

theorem looks_resume (c : Configuration) : Looks (resume (.reading c)) where
  token {p p' t} heof h := by
    obtain ⟨heq, hup | ⟨hup, hup'⟩⟩ := upcoming_of_peek h
    · simp only [resume, heq, hup]
    · simp only [resume, heq, hup, hup', finish, c.step_eof (Token.isEof_iff.1 heof)]
  fault {p p' e} h := by
    obtain ⟨hup, hp'⟩ := upcoming_of_peek_error h
    rw [resume, hup, finish, ← hp']

theorem looks_resumeAll (done : List Expr) : Looks (resumeAll done) where
  token {p p' t} heof h := by
    obtain ⟨heq, hup | ⟨hup, hup'⟩⟩ := upcoming_of_peek h
    · simp only [resumeAll, heq, hup]
    · simp [resumeAll, heq, hup, hup', finishAll, heof]
  fault {p p' e} h := by
    obtain ⟨hup, hp'⟩ := upcoming_of_peek_error h
    rw [resumeAll, hup, finishAll, ← hp']

theorem upcoming_of_peeked {p : Parser} {t : Token} (h : p.peeked = some t) :
    p.upcoming = .ok t :: p.ahead := by
  rw [upcoming, h]
  rfl

theorem peek_of_peeked {p : Parser} {t : Token} (h : p.peeked = some t) : p.peek = (.ok t, p) := by
  rw [peek, h]

theorem peeked_of_peek {p p' : Parser} {t : Token} (h : p.peek = (.ok t, p')) :
    p'.peeked = some t := by
  rw [peek] at h
  split at h
  all_goals cases h
  all_goals first | assumption | rfl

/-- What comes of the expressions of a program that begins with this token. -/
def yieldProgram (t : Token) (es : List Expr) : Run Program := fun p => (.ok ⟨t.position, es⟩, p)

theorem program_of_peek {p p' : Parser} {t : Token} (h : p.peek = (.ok t, p')) :
    p.program = (resumeAll []).bind (yieldProgram t) p' := by
  rw [program, h]
  simp only [Run.bind, resumeAll]
  split <;> simp_all [yieldProgram]

theorem looks_program : Looks program where
  token {p p' t} _ h := by
    rw [program_of_peek h, program_of_peek (peek_of_peeked (peeked_of_peek h))]
  fault {p p' e} h := by rw [program, h]

/-- The buffer empty. -/
def drop (p : Parser) : Parser := { p with peeked := none }

section
variable {p : Parser} {t : Token} (hp : p.peeked = some t) {c : Configuration}
include hp

/-- The machine takes the buffered token if it leads anywhere. -/
theorem resume_of_step {q : Progress} (h : c.step t = some q) :
    resume (.reading c) p = resume q p.drop := by
  rw [resume, upcoming_of_peeked hp, finish, h]
  cases q <;> rfl

theorem resume_of_refused (h : c.step t = none) : resume (.reading c) p =
    (.error (.grammar (c.focus.refusal t)), if c.focus.takesRefused then p.drop else p) := by
  have hup := upcoming_of_peeked hp
  obtain ⟨_, ahead, eof⟩ := p
  cases hp
  rw [resume, hup, finish, h]
  simp only [refuse]
  cases c.focus.takesRefused <;> rfl

/-- A focus that admits an expression next is left alike whatever else it admits. -/
theorem resume_operand {outer : List Context} {expected : String}
    (hs : c.step t = Configuration.enter outer t) (hf : c.focus.takesRefused = false)
    (he : c.focus.expected t.lexeme = expected) :
    resume (.reading c) p = resume (.reading ⟨.operand expected, outer⟩) p := by
  have hoperand : Configuration.step ⟨.operand expected, outer⟩ t = Configuration.enter outer t := rfl
  cases h : Configuration.enter outer t with
  | some q => rw [resume_of_step hp (hs.trans h), resume_of_step hp (hoperand.trans h)]
  | none =>
    rw [resume_of_refused hp (hs.trans h), resume_of_refused hp (hoperand.trans h), hf,
      Focus.refusal_eq hf, he]
    rfl

theorem resumeAll_end (h : t.isEof = true) (done : List Expr) :
    resumeAll done p = (.ok done.reverse, p) := by
  obtain ⟨_, ahead, eof⟩ := p
  cases hp
  simp [resumeAll, upcoming, finishAll, h]

end

/-- An expression of a program is read as it is read alone. -/
theorem finishAll_some (eof : Token) (done : List Expr) : ∀ (l : List Scanned) (c : Configuration),
    finishAll eof done (some c) l =
      (resume (.reading c)).bind (fun e => resumeAll (e :: done)) ⟨none, l, eof⟩
  | [], c => rfl
  | .error e :: rest, c => rfl
  | .ok t :: rest, c => by
    have hup : upcoming ⟨none, .ok t :: rest, eof⟩ = .ok t :: rest := rfl
    simp only [Run.bind, resume, hup, finishAll, finish, Option.isNone_some, Bool.false_eq_true,
      false_and, if_false, Option.getD_some]
    cases c.step t with
    | none => rfl
    | some q =>
      cases q with
      | done e => rfl
      | reading c => exact finishAll_some eof done rest c

/-- A program goes on with an expression unless it is at its end. -/
theorem resumeAll_next {p : Parser} {t : Token} (hp : p.peeked = some t) (h : t.isEof = false)
    (done : List Expr) : resumeAll done p =
      (resume (.reading (.start "expression"))).bind (fun e => resumeAll (e :: done)) p := by
  have hup := upcoming_of_peeked hp
  rw [resumeAll, hup, finishAll_none_cons h, finishAll_some, Run.bind, Run.bind, resume, resume, hup]
  rfl

end Parser

namespace Reader

/-- The running reader at the same place. -/
def parser (r : Reader) : Parser where
  peeked := r.peeked
  ahead := r.ahead
  eof := ⟨.eof, r.cursor.position.through r.cursor.rest⟩

theorem parser_start (text : List Char) : (start text).parser = Parser.start text := rfl

theorem eof_parser_scan (r : Reader) : r.scan.parser.eof = r.parser.eof :=
  congrArg (Token.mk .eof) (Cursor.through_next r.cursor)

/-- A call of the scanner finds what the running reader finds next. -/
theorem Sound.parser_peek {r : Reader} (hr : r.Sound) (hp : r.peeked = none) :
    r.parser.peek = (r.cursor.next.1, r.scan.parser) := by
  have hscan : r.scan.parser = ⟨r.cursor.next.1.toOption, r.scan.ahead, r.parser.eof⟩ := by
    rw [← eof_parser_scan]
    rfl
  have hany : r.scan.scanned.any Cursor.isEnd =
      (r.scanned.any Cursor.isEnd || Cursor.isEnd r.cursor.next.1) := by
    simp [Reader.scan]
  rw [hscan, ahead, hany]
  cases hend : r.scanned.any Cursor.isEnd with
  | true =>
    -- the end was found before, and the scanner finds it once more
    have hnext := Cursor.next_of_isEnd (Cursor.isEnd_next_of_rest (hr hend))
    rw [hnext]
    simp [Parser.peek, parser, ahead, hp, hend, Except.toOption]
  | false =>
    rw [Bool.false_or, Parser.peek]
    simp only [parser, ahead, hp, hend, Bool.false_eq_true, if_false]
    rw [Cursor.results_cons, Reader.scan]
    cases r.cursor.next.1 with
    | error e => simp [Cursor.isEnd, Except.toOption]
    | ok t => cases h : Cursor.isEnd (.ok t) <;> simp [Except.toOption]

end Reader

namespace Descent

open SmallLisp.Parser

section
variable {α β : Type}

theorem bind_ok {x : Descent α} {f : α → Descent β} {r r' : Reader} {a : α} (h : x r = .ok a r') :
    (x >>= f) r = f a r' := by
  show EStateM.bind x f r = _
  rw [EStateM.bind, h]

theorem bind_error {x : Descent α} {f : α → Descent β} {r r' : Reader} {e : Halt}
    (h : x r = .error e r') : (x >>= f) r = .error e r' := by
  show EStateM.bind x f r = _
  rw [EStateM.bind, h]

theorem exists_of_bind_ok {x : Descent α} {f : α → Descent β} {r s : Reader} {b : β}
    (h : (x >>= f) r = .ok b s) : ∃ a q, x r = .ok a q ∧ f a q = .ok b s := by
  cases hx : x r with
  | ok a q =>
    rw [bind_ok hx] at h
    exact ⟨a, q, rfl, h⟩
  | error e q =>
    rw [bind_error hx] at h
    cases h

end

section
variable {α : Type} {x : Descent α} {r s : Reader}

theorem outcome_eq_ok_iff {a : α} : x.outcome r = some (.ok a, s) ↔ x r = .ok a s := by
  unfold outcome
  split <;> simp_all

theorem outcome_eq_error_iff {e : ParseError} :
    x.outcome r = some (.error e, s) ↔ x r = .error (.error e) s := by
  unfold outcome
  split <;> simp_all

end

/-! ## The buffered token -/

theorem peek_eq {r : Reader} {t : Token} (hp : r.peeked = some t) : peek r = .ok t r := by
  rw [peek, hp]

/-- A look at the next token: it is buffered already, or the scanner finds it, or finds a fault. -/
theorem peek_cases (r : Reader) :
    (∃ t r', peek r = .ok t r' ∧ r.Advances r' ∧ r'.peeked = some t ∧ r'.taken = r.taken) ∨
      ∃ e, peek r = .error (.error (.lexical e)) r.scan ∧ r.peeked = none ∧
        r.cursor.next.1 = .error e := by
  cases hp : r.peeked with
  | some t => exact .inl ⟨t, r, peek_eq hp, .refl, hp, rfl⟩
  | none =>
    cases hn : r.cursor.next.1 with
    | ok t =>
      refine .inl ⟨t, r.scan, ?_, .single (.scan hp hn), ?_, rfl⟩
      · rw [peek, hp, hn]
      · rw [Reader.scan, hn]
        rfl
    | error e => exact .inr ⟨e, by rw [peek, hp, hn], rfl, rfl⟩

theorem of_peek {r s : Reader} {t : Token} (h : peek r = .ok t s) :
    r.Advances s ∧ s.peeked = some t ∧ s.taken = r.taken := by
  rcases peek_cases r with ⟨t', s', hs, hadv⟩ | ⟨e, he, -⟩
  · rw [h] at hs
    cases hs
    exact hadv
  · rw [h] at he
    cases he

theorem take_of_peek {r s : Reader} {t : Token} (h : peek r = .ok t s) : take r = .ok t s.drop :=
  bind_ok h

theorem takeIf_of_peek {r s : Reader} {t : Token} (h : peek r = .ok t s) (kind : TokenKind) :
    takeIf kind r = if t.kind = kind then .ok (some t) s.drop else .ok none s := by
  rw [takeIf, bind_ok h]
  split
  · exact bind_ok (take_of_peek (peek_eq (of_peek h).2.1))
  · rfl

section
variable {r : Reader} {t : Token} (hp : r.peeked = some t)
include hp

theorem take_eq : take r = .ok t r.drop := take_of_peek (peek_eq hp)

theorem takeIf_eq (kind : TokenKind) : takeIf kind r =
    if t.kind = kind then .ok (some t) r.drop else .ok none r :=
  takeIf_of_peek (peek_eq hp) kind

end

theorem of_takeIf_none {r s : Reader} {kind : TokenKind} (h : takeIf kind r = .ok none s) :
    r.Advances s ∧ s.taken = r.taken := by
  obtain ⟨t, q, hq, h⟩ := exists_of_bind_ok h
  obtain ⟨hadv, hp, htaken⟩ := of_peek hq
  split at h
  · cases (bind_ok (take_eq hp)).symm.trans h
  · cases h
    exact ⟨hadv, htaken⟩

/-- The running reader finds the token, and stands where the reader does. -/
theorem parser_peek_of_peek {r s : Reader} {t : Token} (hr : r.Sound) (h : peek r = .ok t s) :
    r.parser.peek = (.ok t, s.parser) := by
  cases hp : r.peeked with
  | some t' =>
    rw [peek_eq hp] at h
    cases h
    exact peek_of_peeked hp
  | none =>
    rw [hr.parser_peek hp]
    rw [peek, hp] at h
    cases hn : r.cursor.next.1 with
    | ok t' =>
      rw [hn] at h
      cases h
      rfl
    | error e =>
      rw [hn] at h
      cases h

/-! ## Following the machine -/

/-- The descent looks at the next token before all else. -/
structure Looking {α : Type} (x : Descent α) : Prop where
  token {r r' : Reader} {t : Token} (h : peek r = .ok t r') : x r = x r'
  fault {r r' : Reader} {e : Halt} (h : peek r = .error e r') : x r = .error e r'

/-- The descent leads from the reader to where the run goes on with what was yielded, or fails as the run
does. That it gives up means that the fuel was too little, which is for `spent` to say. -/
def Follows {α β : Type} (spent : Prop) (run : Run β) (x : Descent α) (next : α → Run β)
    (r : Reader) : Prop :=
  match x r with
  | .ok a s => r.Advances s ∧ run r.parser = next a s.parser
  | .error (.error e) s =>
    (∃ q, r.Advances q ∧ q.Stop e s) ∧ run r.parser = (.error e, s.parser)
  | .error .exhausted _ => spent

section
variable {α β γ : Type}

theorem looking_peek : Looking peek where
  token {r r' t} h := by
    rw [h, peek_eq (of_peek h).2.1]
  fault h := h

theorem Looking.bind {x : Descent α} (hx : Looking x) (f : α → Descent β) : Looking (x >>= f) where
  token {r r' t} h := by
    show EStateM.bind x f r = EStateM.bind x f r'
    rw [EStateM.bind, EStateM.bind, hx.token h]
  fault h := bind_error (hx.fault h)

variable {spent : Prop} {run : Run γ} {next : β → Run γ} {r s : Reader}

theorem follows_ok {x : Descent β} {b : β} (hx : x r = .ok b s) (hadv : r.Advances s)
    (hrun : run r.parser = next b s.parser) : Follows spent run x next r := by
  rw [Follows, hx]
  exact ⟨hadv, hrun⟩

theorem follows_error {x : Descent β} {q : Reader} {e : ParseError}
    (hx : x r = .error (.error e) s) (hadv : r.Advances q) (hstop : q.Stop e s)
    (hrun : run r.parser = (.error e, s.parser)) : Follows spent run x next r := by
  rw [Follows, hx]
  exact ⟨⟨q, hadv, hstop⟩, hrun⟩

theorem Follows.mono {spent' : Prop} {x : Descent β} (h : Follows spent run x next r)
    (hspent : spent → spent') : Follows spent' run x next r := by
  unfold Follows at h ⊢
  split at h
  · exact h
  · exact h
  · exact hspent h

theorem Follows.leads {x : Descent β} {a : Except ParseError β} (h : Follows spent run x next r)
    (hx : x.outcome r = some (a, s)) : r.Leads a s := by
  cases a with
  | ok b =>
    rw [Follows, outcome_eq_ok_iff.1 hx] at h
    exact h.1
  | error e =>
    rw [Follows, outcome_eq_error_iff.1 hx] at h
    exact h.1

theorem Follows.exists_outcome {x : Descent β} (h : Follows spent run x next r) (hspent : ¬ spent) :
    ∃ a s, x.outcome r = some (a, s) := by
  unfold Follows at h
  split at h
  · rename_i hx
    exact ⟨_, _, outcome_eq_ok_iff.2 hx⟩
  · rename_i hx
    exact ⟨_, _, outcome_eq_error_iff.2 hx⟩
  · exact absurd h hspent

/-- A descent that follows a run to its end comes to the same. -/
theorem Follows.run_eq {x : Descent β} {run : Run β} {a : Except ParseError β}
    (h : Follows spent run x (fun b p => (.ok b, p)) r) (hx : x.outcome r = some (a, s)) :
    run r.parser = (a, s.parser) := by
  cases a with
  | ok b =>
    rw [Follows, outcome_eq_ok_iff.1 hx] at h
    exact h.2
  | error e =>
    rw [Follows, outcome_eq_error_iff.1 hx] at h
    exact h.2

/-- A descent follows if it has come to what does. -/
theorem Follows.of_eq {x y : Descent β} {run' : Run γ} (h : Follows spent run' y next s)
    (hadv : r.Advances s) (hx : x r = y s) (hrun : run r.parser = run' s.parser) :
    Follows spent run x next r := by
  unfold Follows at h ⊢
  rw [hx]
  split at h
  · exact ⟨hadv.trans h.1, hrun.trans h.2⟩
  · obtain ⟨⟨q, hq, hstop⟩, h⟩ := h
    exact ⟨⟨q, hadv.trans hq, hstop⟩, hrun.trans h⟩
  · exact h

theorem Follows.bind {x : Descent α} {f : α → Descent β} {mid : α → Run γ}
    (hx : Follows spent run x mid r)
    (hf : ∀ a s, x r = .ok a s → r.Advances s → Follows spent (mid a) (f a) next s) :
    Follows spent run (x >>= f) next r := by
  unfold Follows at hx
  split at hx
  · rename_i a s hok
    exact (hf a s hok hx.1).of_eq hx.1 (bind_ok hok) hx.2
  · rename_i e s herr
    obtain ⟨⟨q, hq, hstop⟩, h⟩ := hx
    exact follows_error (bind_error herr) hq hstop h
  · rename_i s hspent
    rw [Follows, bind_error hspent]
    exact hx

/-- What follows a run to its end follows one that begins with it. -/
theorem Follows.lift {x : Descent β} {run : Run β} {run' : Run γ} {next : β → Run γ}
    (h : Follows spent run x (fun b p => (.ok b, p)) r)
    (hrun : run' r.parser = run.bind next r.parser) : Follows spent run' x next r := by
  unfold Follows at h ⊢
  split at h
  · exact ⟨h.1, by rw [hrun, Run.bind, h.2]⟩
  · exact ⟨h.1, by rw [hrun, Run.bind, h.2]⟩
  · exact h

/-- A descent and a run that both look at the next token first are as they are with the token in the
buffer. -/
theorem Looking.follows {x : Descent β} (hx : Looking x) (hrun : Looks run) (hr : r.Sound)
    (h : ∀ t s, r.Advances s → s.peeked = some t → Follows spent run x next s) :
    Follows spent run x next r := by
  rcases peek_cases r with ⟨t, s, hs, hadv, hp, -⟩ | ⟨e, he, hp, hn⟩
  · exact (h t s hadv hp).of_eq hadv (hx.token hs) (hrun.token rfl (parser_peek_of_peek hr hs))
  · have hpeek := hr.parser_peek hp
    rw [hn] at hpeek
    exact follows_error (hx.fault he) .refl (.lexical hp hn) (hrun.fault hpeek)

theorem follows_peek {f : Token → Descent β} (hrun : Looks run) (hr : r.Sound)
    (h : ∀ t s, r.Advances s → s.peeked = some t → Follows spent run (f t) next s) :
    Follows spent run (peek >>= f) next r :=
  (looking_peek.bind f).follows hrun hr fun t s hadv hp =>
    (h t s hadv hp).of_eq .refl (bind_ok (peek_eq hp)) rfl

/-- The focus refuses the buffered token, and the descent complains about it as the focus does. -/
theorem follows_refused {next : β → Run Expr} {x : Descent β} {c : Configuration} {t : Token}
    {e : SyntaxError} (hp : r.peeked = some t) (hs : c.step t = none) (he : c.focus.refusal t = e)
    (hx : x r = .error (.error (.grammar e)) (if c.focus.takesRefused then r.drop else r)) :
    Follows spent (resume (.reading c)) x next r := by
  have hfound : r.peeked = some e.found := by rw [← he]; exact hp
  have hrun := resume_of_refused (p := r.parser) hp hs
  rw [he] at hrun
  cases htakes : c.focus.takesRefused with
  | true =>
    simp only [htakes, if_true] at hx hrun
    exact follows_error hx .refl (.taken hfound) hrun
  | false =>
    simp only [htakes, Bool.false_eq_true, if_false] at hx hrun
    exact follows_error hx .refl (.peeked hfound) hrun

/-- The focus refuses the buffered token, which stays there. -/
theorem follows_refuse {next : β → Run Expr} {c : Configuration} {t : Token} {expected : String}
    (hp : r.peeked = some t) (hs : c.step t = none) (hf : c.focus.takesRefused = false)
    (he : c.focus.expected t.lexeme = expected) :
    Follows spent (resume (.reading c)) (refuse expected t) next r := by
  refine follows_refused hp hs (by rw [Focus.refusal_eq hf, he]) ?_
  rw [hf]
  rfl

/-- The focus admits the buffered token, and the descent takes it. -/
theorem follows_taken {next : β → Run Expr} {x y : Descent β} {c : Configuration} {t : Token}
    {q : Progress} (hp : r.peeked = some t) (hs : c.step t = some q) (hx : x r = y r.drop)
    (h : Follows spent (resume q) y next r.drop) :
    Follows spent (resume (.reading c)) x next r :=
  h.of_eq (.single (.drop hp (Configuration.isEof_of_step hs))) hx (resume_of_step hp hs)

end

end Descent

end SmallLisp

import SmallLisp.Proofs.Descents

/-!
# Calls in any order

The operations of a reader may be called in any order, also after one of them has failed. What the
running reader answers, the recursive descent answers (`Call.performed`), and so for any number of calls
in turn (`Call.session_performed`). No token is lost or taken twice on the way: those that were taken and the one
that is buffered are always all that the scanner has found. Main statement: `Call.session_keeps`.
-/

set_option autoImplicit false

namespace SmallLisp

/-- A call of one of the operations of a reader. -/
inductive Call
  | peek
  | take
  | takeIf (kind : TokenKind)
  | expect (kind : TokenKind) (expected : String)
  | expression (expected : String)
  | program

namespace Call

/-- What a call returns. -/
inductive Answer
  | token (t : Token)
  /-- The next token is of another kind. -/
  | noToken
  | expr (e : Expr)
  | program (p : Program)

namespace Answer

def ofOption : Option Token → Answer
  | some t => token t
  | none => noToken

end Answer

/-- A call as the running reader answers it. -/
def run : Call → Parser.Run Answer
  | peek, p => (lexical p.peek.1 Answer.token, p.peek.2)
  | take, p => (lexical p.take.1 Answer.token, p.take.2)
  | takeIf kind, p => (lexical (p.takeIf kind).1 Answer.ofOption, (p.takeIf kind).2)
  | expect kind expected, p =>
    ((p.expect kind expected).1.map Answer.token, (p.expect kind expected).2)
  | expression expected, p => ((p.expression expected).1.map Answer.expr, (p.expression expected).2)
  | program, p => (p.program.1.map Answer.program, p.program.2)
where
  lexical {α : Type} (a : Except LexicalError α) (f : α → Answer) : Except ParseError Answer :=
    match a with
    | .ok a => .ok (f a)
    | .error e => .error (.lexical e)

/-- A call as the recursive descent answers it. -/
def descent (fuel : Nat) : Call → Descent Answer
  | peek => do return .token (← Descent.peek)
  | take => do return .token (← Descent.take)
  | takeIf kind => do return .ofOption (← Descent.takeIf kind)
  | expect kind expected => do return .token (← Descent.expect kind expected)
  | expression expected => do return .expr (← Descent.expression fuel expected)
  | program => do return .program (← Descent.program fuel)

/-- What the running reader answers to some calls in turn, and where it stands at last. -/
def session : List Call → Parser → List (Except ParseError Answer) × Parser
  | [], p => ([], p)
  | call :: calls, p =>
    let first := call.run p
    let rest := session calls first.2
    (first.1 :: rest.1, rest.2)

/-- What the recursive descent answers; none if it gives up. -/
def descents (fuel : Nat) : List Call → Reader → Option (List (Except ParseError Answer) × Reader)
  | [], r => some ([], r)
  | call :: calls, r => do
    let (first, r) ← (call.descent fuel).outcome r
    let (rest, r) ← descents fuel calls r
    return (first :: rest, r)

/-- What a call that answers this does with the tokens. -/
structure Moves (call : Call) (answer : Except ParseError Answer) (r s : Reader) : Prop where
  /-- It takes some tokens that come next. -/
  run : ∃ run, s.tokens = r.taken ++ run ++ s.peeked.toList ∧ s.taken = r.taken ++ run
  looked {t : Token} (h : answer = .ok (.token t)) (hcall : call = peek) :
    s.taken = r.taken ∧ s.peeked = some t
  handed {t : Token} (h : answer = .ok (.token t)) (hcall : call ≠ peek) :
    s.taken = r.taken ++ [t] ∧ s.peeked = none
  declined (h : answer = .ok .noToken) : s.taken = r.taken ∧ ∃ t, s.peeked = some t
  /-- A token that is not the expected one is taken all the same. -/
  refused {kind : TokenKind} {expected : String} {e : SyntaxError} (h : answer = .error (.grammar e))
    (hcall : call = expect kind expected) : s.taken = r.taken ++ [e.found] ∧ s.peeked = none
  /-- A lexical error leaves nothing in the buffer, and all tokens that were found are taken. -/
  lexical {e : LexicalError} (h : answer = .error (.lexical e)) :
    s.peeked = none ∧ s.taken = s.tokens ∧ s.scanned.getLast? = some (.error e)

section
variable {call : Call} {r s : Reader}

theorem exists_run (h : r.Reaches s) (hb : s.Balanced) :
    ∃ run, s.tokens = r.taken ++ run ++ s.peeked.toList ∧ s.taken = r.taken ++ run := by
  obtain ⟨run, hrun⟩ := h.taken
  exact ⟨run, by rw [← hrun, hb], hrun⟩

/-- The next token stays where it is. -/
theorem moves_kept {t : Token} {answer : Except ParseError Answer} (h : r.Reaches s)
    (hb : s.Balanced) (hp : s.peeked = some t) (htaken : s.taken = r.taken)
    (ha : answer = .ok .noToken ∨ answer = .ok (.token t) ∧ call = peek) :
    call.Moves answer r s where
  run := exists_run h hb
  looked h _ := by
    rcases ha with rfl | ⟨rfl, -⟩
    · cases h
    · cases h
      exact ⟨htaken, hp⟩
  handed h hcall := by
    rcases ha with rfl | ⟨rfl, rfl⟩
    · cases h
    · exact absurd rfl hcall
  declined _ := ⟨htaken, t, hp⟩
  refused h _ := by rcases ha with rfl | ⟨rfl, -⟩ <;> cases h
  lexical h := by rcases ha with rfl | ⟨rfl, -⟩ <;> cases h

/-- The next token is taken, and is the answer or reported in it. -/
theorem moves_taken {t : Token} {answer : Except ParseError Answer} (h : r.Reaches s.drop)
    (hb : s.drop.Balanced) (hp : s.peeked = some t) (htaken : s.taken = r.taken)
    (ha : answer = .ok (.token t) ∧ call ≠ peek ∨
      ∃ e : SyntaxError, answer = .error (.grammar e) ∧ e.found = t) :
    call.Moves answer r s.drop where
  run := exists_run h hb
  looked h hcall := by
    rcases ha with ⟨rfl, hne⟩ | ⟨e, rfl, -⟩
    · exact absurd hcall hne
    · cases h
  handed h _ := by
    rcases ha with ⟨rfl, -⟩ | ⟨e, rfl, -⟩
    · cases h
      exact ⟨by rw [Reader.drop, hp, htaken, Option.toList_some], rfl⟩
    · cases h
  declined h := by rcases ha with ⟨rfl, -⟩ | ⟨e, rfl, -⟩ <;> cases h
  refused h _ := by
    rcases ha with ⟨rfl, -⟩ | ⟨e, rfl, he⟩
    · cases h
    · cases h
      exact ⟨by rw [Reader.drop, hp, htaken, he, Option.toList_some], rfl⟩
  lexical h := by rcases ha with ⟨rfl, -⟩ | ⟨e, rfl, -⟩ <;> cases h

/-- An expression or a program was read or was not, or else the scanner has found a fault. -/
theorem moves_of_leads {α : Type} {a : Except ParseError α} {f : α → Answer} (h : r.Leads a s)
    (hb : s.Balanced) (hf : ∀ x, f x ≠ .noToken ∧ ∀ t, f x ≠ .token t)
    (hcall : ∀ e kind expected, a = .error (.grammar e) → call ≠ expect kind expected) :
    call.Moves (a.map f) r s where
  run := exists_run h.reaches hb
  looked h _ := by
    cases a with
    | ok x => exact absurd (Except.ok.inj h) ((hf x).2 _)
    | error e => cases h
  handed h _ := by
    cases a with
    | ok x => exact absurd (Except.ok.inj h) ((hf x).2 _)
    | error e => cases h
  declined h := by
    cases a with
    | ok x => exact absurd (Except.ok.inj h) (hf x).1
    | error e => cases h
  refused ha hexpect := by
    cases a with
    | ok x => cases ha
    | error e =>
      cases ha
      exact absurd hexpect (hcall _ _ _ rfl)
  lexical ha := by
    cases a with
    | ok x => cases ha
    | error e =>
      cases ha
      obtain ⟨hp, hlast⟩ := h.lexical
      refine ⟨hp, ?_, hlast⟩
      rw [hb, hp, Option.toList_none, List.append_nil]

end

/-! ## One call -/

/-- A call comes to something, the running reader answers it as the descent does, and the tokens are moved
as the answer says. -/
def Performed (fuel : Nat) (call : Call) (r : Reader) : Prop :=
  ∃ answer s, (call.descent fuel).outcome r = some (answer, s) ∧
    call.run r.parser = (answer, s.parser) ∧ r.Reaches s ∧ call.Moves answer r s

section
variable {fuel : Nat} {call : Call} {r : Reader} (hr : r.Sound) (hb : r.Balanced)
include hr hb

/-- A call about the next token fails with the look at it, or else it is in the buffer. -/
theorem performed_of_token (hlooking : Descent.Looking (call.descent fuel))
    (hfault : ∀ {p p' : Parser} {e : LexicalError}, p.peek = (.error e, p') →
      call.run p = (.error (.lexical e), p'))
    (htoken : ∀ {t : Token} {s : Reader}, Descent.peek r = .ok t s → s.peeked = some t →
      s.taken = r.taken → r.Reaches s → s.Balanced → r.parser.peek = (.ok t, s.parser) →
      Performed fuel call r) : Performed fuel call r := by
  rcases Descent.peek_cases r with ⟨t, s, hs, hadv, hp, htaken⟩ | ⟨e, he, hp, hn⟩
  · exact htoken hs hp htaken hadv.reaches (hadv.reaches.balanced hb)
      (Descent.parser_peek_of_peek hr hs)
  · have hpeek := hr.parser_peek hp
    rw [hn] at hpeek
    have hleads : r.Leads (α := Expr) (.error (.lexical e)) r.scan := ⟨r, .refl, .lexical hp hn⟩
    refine ⟨.error (.lexical e), r.scan, Descent.outcome_eq_error_iff.2 (hlooking.fault he),
      hfault hpeek, hleads.reaches, ?_⟩
    refine moves_of_leads (f := .expr) hleads (hleads.reaches.balanced hb)
      (fun _ => ⟨nofun, fun _ => nofun⟩) fun e' _ _ heq => ?_
    cases heq

theorem performed_peek : Performed fuel peek r := by
  refine performed_of_token hr hb (Descent.looking_peek.bind _) (fun h => by rw [run, h]; rfl)
    fun {t s} hs hp htaken hreaches hbs hpeek => ?_
  refine ⟨.ok (.token t), s, Descent.outcome_eq_ok_iff.2 (Descent.bind_ok hs), ?_, hreaches,
    moves_kept hreaches hbs hp htaken (.inr ⟨rfl, rfl⟩)⟩
  rw [run, hpeek]
  rfl

theorem performed_take : Performed fuel take r := by
  refine performed_of_token hr hb (Descent.looking_take.bind _)
    (fun h => by rw [run, Parser.take, h]; rfl)
    fun {t s} hs hp htaken hreaches hbs hpeek => ?_
  have hdrop : r.Reaches s.drop := hreaches.tail (.drop hp)
  refine ⟨.ok (.token t), s.drop, ?_, ?_, hdrop,
    moves_taken hdrop ((Reader.Step.drop hp).balanced hbs) hp htaken (.inl ⟨rfl, nofun⟩)⟩
  · exact Descent.outcome_eq_ok_iff.2 (Descent.bind_ok (Descent.take_of_peek hs))
  · rw [run, Parser.take, hpeek]
    rfl

theorem performed_takeIf (kind : TokenKind) : Performed fuel (takeIf kind) r := by
  refine performed_of_token hr hb ((Descent.looking_takeIf kind).bind _)
    (fun h => by rw [run, Parser.takeIf, h]; rfl)
    fun {t s} hs hp htaken hreaches hbs hpeek => ?_
  have htake := Descent.takeIf_of_peek hs kind
  by_cases hk : t.kind = kind
  · have hdrop : r.Reaches s.drop := hreaches.tail (.drop hp)
    rw [if_pos hk] at htake
    refine ⟨.ok (.token t), s.drop, Descent.outcome_eq_ok_iff.2 (Descent.bind_ok htake), ?_, hdrop,
      moves_taken hdrop ((Reader.Step.drop hp).balanced hbs) hp htaken (.inl ⟨rfl, nofun⟩)⟩
    rw [run, Parser.takeIf, hpeek]
    simp only [if_pos hk]
    rfl
  · rw [if_neg hk] at htake
    refine ⟨.ok .noToken, s, Descent.outcome_eq_ok_iff.2 (Descent.bind_ok htake), ?_, hreaches,
      moves_kept hreaches hbs hp htaken (.inl rfl)⟩
    rw [run, Parser.takeIf, hpeek]
    simp only [if_neg hk]
    rfl

theorem performed_expect (kind : TokenKind) (expected : String) :
    Performed fuel (expect kind expected) r := by
  refine performed_of_token hr hb ((Descent.looking_take.bind _).bind _)
    (fun h => by rw [run, Parser.expect, Parser.take, h]; rfl)
    fun {t s} hs hp htaken hreaches hbs hpeek => ?_
  have hdrop : r.Reaches s.drop := hreaches.tail (.drop hp)
  have hbd := (Reader.Step.drop hp).balanced hbs
  have hexpect : Descent.expect kind expected r =
      (if t.kind = kind then pure t else Descent.refuse expected t) s.drop :=
    Descent.bind_ok (Descent.take_of_peek hs)
  by_cases hk : t.kind = kind
  · rw [if_pos hk] at hexpect
    refine ⟨.ok (.token t), s.drop, Descent.outcome_eq_ok_iff.2 (Descent.bind_ok hexpect), ?_, hdrop,
      moves_taken hdrop hbd hp htaken (.inl ⟨rfl, nofun⟩)⟩
    rw [run, Parser.expect, Parser.take, hpeek]
    simp only [if_pos hk]
    rfl
  · rw [if_neg hk] at hexpect
    refine ⟨.error (.grammar { expected, found := t }), s.drop,
      Descent.outcome_eq_error_iff.2 (Descent.bind_error hexpect), ?_, hdrop,
      moves_taken hdrop hbd hp htaken (.inr ⟨_, rfl, rfl⟩)⟩
    rw [run, Parser.expect, Parser.take, hpeek]
    simp only [if_neg hk]
    rfl

end

/-- What a descent comes to, seen as an answer. -/
theorem outcome_return {α : Type} (x : Descent α) (f : α → Answer) {r s : Reader}
    {a : Except ParseError α} (h : x.outcome r = some (a, s)) :
    Descent.outcome (x >>= fun a => pure (f a)) r = some (a.map f, s) := by
  cases a with
  | ok a => exact Descent.outcome_eq_ok_iff.2 (Descent.bind_ok (Descent.outcome_eq_ok_iff.1 h))
  | error e =>
    exact Descent.outcome_eq_error_iff.2 (Descent.bind_error (Descent.outcome_eq_error_iff.1 h))

/-- **Each call does what its answer says.** -/
theorem performed {fuel : Nat} (call : Call) {r : Reader} (hr : r.Sound) (hb : r.Balanced)
    (hfuel : r.unread < fuel) : Performed fuel call r := by
  cases call with
  | peek => exact performed_peek hr hb
  | take => exact performed_take hr hb
  | takeIf kind => exact performed_takeIf hr hb kind
  | expect kind expected => exact performed_expect hr hb kind expected
  | expression expected =>
    obtain ⟨a, s, hx, hrun, hleads⟩ := Descent.expression_eq hr hfuel expected
    refine ⟨a.map .expr, s, outcome_return _ _ hx, by rw [run, hrun], hleads.reaches, ?_⟩
    exact moves_of_leads hleads (hleads.reaches.balanced hb)
      (fun _ => ⟨nofun, fun _ => nofun⟩) fun _ _ _ _ => nofun
  | program =>
    obtain ⟨a, s, hx, hrun, hleads⟩ := Descent.program_eq hr hfuel
    refine ⟨a.map .program, s, outcome_return _ _ hx, by rw [run, hrun], hleads.reaches, ?_⟩
    exact moves_of_leads hleads (hleads.reaches.balanced hb)
      (fun _ => ⟨nofun, fun _ => nofun⟩) fun _ _ _ _ => nofun

/-! ## Any number of calls -/

theorem session_performed {fuel : Nat} (calls : List Call) {r : Reader} (hr : r.Sound)
    (hb : r.Balanced) (hfuel : r.unread < fuel) : ∃ answers s,
      descents fuel calls r = some (answers, s) ∧ session calls r.parser = (answers, s.parser) ∧
        r.Reaches s := by
  induction calls generalizing r with
  | nil => exact ⟨[], r, rfl, rfl, .refl⟩
  | cons call calls ih =>
    obtain ⟨answer, s, hx, hrun, hreaches, -⟩ := performed call hr hb hfuel
    obtain ⟨answers, s', hx', hrun', hreaches'⟩ := ih (hreaches.sound hr)
      (hreaches.balanced hb) (Nat.lt_of_le_of_lt hreaches.unread_le hfuel)
    refine ⟨answer :: answers, s', ?_, ?_, hreaches.trans hreaches'⟩
    · simp [descents, hx, hx']
    · rw [session, hrun]
      simp only [hrun']

end Call

/-- **The lookahead loses and repeats no token.** Make any calls in turn on the reader of a text, also
after some have failed. The running reader answers them as the recursive descent does; the scanner has
been called as often as the record says and has found what the record says; and the tokens that were taken,
followed by the one in the buffer if there is one, are exactly the tokens that the scanner has found. The
next call, whichever it is, then does with the tokens what its answer says (`Call.Moves`): it takes a run
of those that come next, a refused token that is expected to be another is taken and no more than this,
and a lexical error leaves the buffer empty and all tokens taken. -/
theorem Call.session_keeps (text : List Char) (fuel : Nat) (hfuel : text.length < fuel)
    (calls : List Call) : ∃ answers r,
      Call.descents fuel calls (Reader.start text) = some (answers, r) ∧
      Call.session calls (Parser.start text) = (answers, r.parser) ∧
      r.Recorded text ∧ r.tokens = r.taken ++ r.peeked.toList ∧
      ∀ call : Call, ∃ answer s, (call.descent fuel).outcome r = some (answer, s) ∧
        call.run r.parser = (answer, s.parser) ∧ call.Moves answer r s := by
  have hr : (Reader.start text).Sound := Reader.sound_of_start .refl
  have hb : (Reader.start text).Balanced := Reader.balanced_of_start .refl
  have hlt : (Reader.start text).unread < fuel := hfuel
  obtain ⟨answers, r, hx, hrun, h⟩ := Call.session_performed calls hr hb hlt
  refine ⟨answers, r, hx, hrun, Reader.recorded_of_start h, Reader.balanced_of_start h, fun call => ?_⟩
  have hlt : r.unread < fuel := Nat.lt_of_le_of_lt (Reader.unread_of_start h) hfuel
  obtain ⟨answer, s, hs, hrun', -, hmoves⟩ :=
    Call.performed call (Reader.sound_of_start h) (Reader.balanced_of_start h) hlt
  exact ⟨answer, s, hs, hrun', hmoves⟩

/-- The declaration has a number for a name, and the dollar sign is no token. Both calls fail, and the other
two find what is left in front of it and behind. -/
theorem Call.session_keeps_after_failures : ∃ answers, ∃ r : Reader,
    Call.session [.expression "value", .takeIf (.punct .closeParen), .peek, .take]
      (Parser.start "(let 5) $ x".toList) = (answers, r.parser) ∧
      r.tokens = r.taken ++ r.peeked.toList ∧ r.scanned.length = 6 ∧ r.taken.length = 5 := by
  obtain ⟨answers, r, hx, hrun, -, htokens, -⟩ := session_keeps "(let 5) $ x".toList 12 (by decide)
    [.expression "value", .takeIf (.punct .closeParen), .peek, .take]
  have hlengths : (Call.descents 12
      [.expression "value", .takeIf (.punct .closeParen), .peek, .take]
      (Reader.start "(let 5) $ x".toList)).map (fun p => (p.2.scanned.length, p.2.taken.length)) =
        some (6, 5) := by rfl
  rw [hx, Option.map_some, Option.some.injEq, Prod.mk.injEq] at hlengths
  exact ⟨answers, r, hrun, htokens, hlengths⟩

end SmallLisp

import SmallLisp.Proofs.Descents

/-!
# Reading ends

On every text the recursive descent comes to a program or an error, and needs no more fuel than the text
has characters: each expression that it reads takes a token, and so does each round of a loop behind which
the loop goes on (`Descent.Iterates`). On the way the scanner is called at most once more than it finds
tokens in front of the end. Main statement: `Program.parse_ends`.
-/

set_option autoImplicit false

namespace SmallLisp

namespace Descent

/-- A round of a loop comes to an end, and takes a token if the loop goes on behind it: if it has failed
or has yielded nothing, it is the last. -/
def Iterates {α : Type} (body : Descent (Option α)) (r : Reader) : Prop :=
  ∃ a s, body.outcome r = some (a, s) ∧ ∀ x, a = .ok (some x) → r.Consumes s

theorem Follows.iterates {α β : Type} {spent : Prop} {run : Parser.Run β} {body : Descent (Option α)}
    {next : Option α → Parser.Run β} {r : Reader} (h : Follows spent run body next r)
    (hspent : ¬ spent) (hc : ∀ {x s}, body r = .ok (some x) s → r.Consumes s) : Iterates body r := by
  obtain ⟨a, s, hx⟩ := h.exists_outcome hspent
  refine ⟨a, s, hx, fun x ha => ?_⟩
  subst ha
  exact hc (outcome_eq_ok_iff.1 hx)

section
variable {fuel : Nat} {expected : String} {r s : Reader} {a : Except ParseError Expr} (hr : r.Sound)
  (hx : (expression fuel expected).outcome r = some (a, s))
include hr hx

theorem consumes_of_expression {e : Expr} (ha : a = .ok e) : r.Consumes s := by
  subst ha
  exact (reads_expression fuel).consumes hr (outcome_eq_ok_iff.1 hx)

theorem first_of_expression {e : ParseError} (ha : a = .error e) (htaken : s.taken = r.taken) :
    peek.outcome r = some (.error e, s) ∨
      ∃ t, peek.outcome r = some (.ok t, s) ∧ e = .grammar { expected, found := t } := by
  subst ha
  have h := outcome_eq_error_iff.1 hx
  cases fuel with
  | zero => cases h
  | succ fuel =>
    rcases first_of_expressionNext (reads_expression fuel) (Nat.le_refl _) hr h htaken with
      hpeek | ⟨t, hpeek, he⟩
    · exact .inl (outcome_eq_error_iff.2 hpeek)
    · exact .inr ⟨t, outcome_eq_ok_iff.2 hpeek, he⟩

end

end Descent

/-- **Reading ends on every text.** The recursive descent that has more fuel than the text has characters
comes to what `Program.parse` says: a program, a lexical or a grammatical error. The scanner is then
called at most once more than it finds tokens in front of the end, so it finds the end at most once and is
called at most once more than there are characters.

Wherever a reader has come to on the text, an expression is read as the machine reads it. One that is read
has taken a token, and one that fails without doing so fails at its first token. Each round of the loops
over the expressions of a program, the arguments of a call and the parameters of a function ends, and
takes a token or is the last. -/
theorem Program.parse_ends (text : List Char) (fuel : Nat) (hfuel : text.length < fuel) :
    (∃ s, (Descent.program fuel).outcome (Reader.start text) = some (parse text, s) ∧
      s.Recorded text ∧ s.scanned.length ≤ (tokenize text).1.countP (!·.isEof) + 1 ∧
      s.scanned.countP Cursor.isEnd ≤ 1 ∧ s.scanned.length ≤ text.length + 1) ∧
    ∀ r, (Reader.start text).Reaches r →
      (∀ expected, ∃ a s, (Descent.expression fuel expected).outcome r = some (a, s) ∧
        r.parser.expression expected = (a, s.parser) ∧
        (∀ e, a = .ok e → r.Consumes s) ∧
        ∀ e, a = .error e → s.taken = r.taken →
          Descent.peek.outcome r = some (.error e, s) ∨
            ∃ t, Descent.peek.outcome r = some (.ok t, s) ∧
              e = .grammar { expected, found := t }) ∧
      Descent.Iterates (Descent.item (Descent.expression fuel)) r ∧
      Descent.Iterates (Descent.argument (Descent.expression fuel)) r ∧
      Descent.Iterates Descent.parameter r := by
  constructor
  · have hstart : (Reader.start text).unread < fuel := hfuel
    obtain ⟨a, s, hx, hrun, hleads⟩ :=
      Descent.program_eq (Reader.sound_of_start .refl) hstart
    have ha : parse text = a := by rw [parse, ← Reader.parser_start, hrun]
    have hended := hleads.ended (Reader.start_clean text)
    exact ⟨s, by rw [ha, hx], Reader.recorded_of_start hleads.reaches, hended.length_scanned_le,
      hended.countP_isEnd_le, hended.length_scanned_le_text⟩
  · intro r h
    have hr := Reader.sound_of_start h
    have hlt : r.unread < fuel := Nat.lt_of_le_of_lt (Reader.unread_of_start h) hfuel
    have hin := Descent.reads_expression fuel
    refine ⟨fun expected => ?_, ?_, ?_, ?_⟩
    · obtain ⟨a, s, hx, hrun, -⟩ := Descent.expression_eq hr hlt expected
      exact ⟨a, s, hx, hrun, fun e => Descent.consumes_of_expression hr hx,
        fun e => Descent.first_of_expression hr hx⟩
    · exact (Descent.follows_item hin [] hr).iterates (Nat.not_le.2 hlt)
        (Descent.consumes_item hin hr)
    · exact (Descent.follows_argument hin hr .start [] (.named "") []).iterates (Nat.not_le.2 hlt)
        (Descent.consumes_argument hin hr)
    · exact (Descent.follows_parameter hr .start [] []).iterates not_false
        Descent.consumes_parameter

/-- The call in this text is not closed. The scanner finds its three tokens and the end. -/
theorem Program.parse_ends_unclosed : ∃ s,
    (Descent.program 5).outcome (Reader.start "(+ 1".toList) = some (parse "(+ 1".toList, s) ∧
      s.scanned.length = 4 ∧ s.scanned.countP Cursor.isEnd ≤ 1 ∧
      Descent.Iterates (Descent.argument (Descent.expression 5)) (Reader.start "(+ 1".toList) := by
  obtain ⟨⟨s, hs, -, -, hend, -⟩, hcalls⟩ := parse_ends "(+ 1".toList 5 (by decide)
  have hlength : ((Descent.program 5).outcome (Reader.start "(+ 1".toList)).map
      (·.2.scanned.length) = some 4 := by rfl
  rw [hs] at hlength
  exact ⟨s, hs, Option.some.inj hlength, hend, (hcalls _ .refl).2.2.1⟩

end SmallLisp

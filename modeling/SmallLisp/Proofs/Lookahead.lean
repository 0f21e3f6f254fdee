import Mathlib.Logic.Relation
import SmallLisp.Parser.Descent
import SmallLisp.Proofs.Places

/-!
# One token of lookahead

All that is ever done with a reader are two things: the scanner is called when no token is buffered, and
the buffered token is taken (`Reader.Step`). Both keep that the tokens that were taken and the one that
is buffered are all that the scanner has found (`Reader.Balanced`), and that the record is that of the
calls that were made (`Reader.Recorded`).

A descent that goes well takes no end of the text, and calls the scanner no more once it has found a
fault (`Reader.Advance`). One that fails does at most one thing more (`Reader.Stop`). So the scanner finds
tokens other than the end, and after them at most one thing that is none (`Reader.Ended`).
-/

set_option autoImplicit false

namespace SmallLisp

namespace Cursor

/-- The call that finds the end of the text leaves nothing of it. -/
theorem next_of_isEnd {c : Cursor} (h : isEnd c.next.1 = true) : c.next =
    (.ok ⟨.eof, c.position.through c.rest⟩, ⟨[], c.position.through c.rest⟩) := by
  have hs := step_next (List.append_nil c.rest).symm (c.isEnd_next_iff.1 h)
  generalize c.next = found at hs ⊢
  cases hs with
  | eof => rfl
  | token hrest hx => exact absurd (List.append_eq_nil_iff.1 hrest.symm).1 hx.ne_nil
  | fault fault hf => exact absurd hf not_faulty_nil

theorem isEnd_next_of_rest {c : Cursor} (h : c.rest = []) : isEnd c.next.1 = true := by
  rw [isEnd_next_iff, h]
  exact .nothing (by simp)

end Cursor

namespace Reader

/-- One thing done with a reader. -/
inductive Step : Reader → Reader → Prop
  | scan {r : Reader} (h : r.peeked = none) : Step r r.scan
  | drop {r : Reader} {t : Token} (h : r.peeked = some t) : Step r r.drop

/-- Some things done with a reader, one after the other. -/
abbrev Reaches : Reader → Reader → Prop := Relation.ReflTransGen Step

/-- What each step keeps, any number of steps keep. -/
theorem Reaches.keeps {P : Reader → Prop} {r r' : Reader} (h : r.Reaches r')
    (hstep : ∀ {s s' : Reader}, Step s s' → P s → P s') (hr : P r) : P r' := by
  induction h with
  | refl => exact hr
  | tail _ hs ih => exact hstep hs ih

/-! ## The record -/

/-- The tokens that the scanner has found. -/
def tokens (r : Reader) : List Token := r.scanned.filterMap Except.toOption

/-- The tokens that were taken and the one that is buffered are all that the scanner has found, in this
order. -/
def Balanced (r : Reader) : Prop := r.tokens = r.taken ++ r.peeked.toList

theorem Step.balanced {r r' : Reader} (h : Step r r') (hr : r.Balanced) : r'.Balanced := by
  cases h with
  | scan h =>
    have htokens : r.scan.tokens = r.tokens ++ r.scan.peeked.toList := by
      simp only [tokens, Reader.scan, List.filterMap_append]
      cases r.cursor.next.1 <;> rfl
    rw [Balanced, htokens, hr, h, Option.toList_none, List.append_nil]
    rfl
  | drop h =>
    show r.tokens = (r.taken ++ r.peeked.toList) ++ []
    rw [List.append_nil, hr]

/-- The scanner has been called on a text as often as the record says, and has found what the record
says. -/
structure Recorded (text : List Char) (r : Reader) : Prop where
  cursor : r.cursor = (Cursor.start text).after r.scanned.length
  scanned : r.scanned = (Cursor.trace r.scanned.length (Cursor.start text)).map (·.1)

theorem Step.recorded {text : List Char} {r r' : Reader} (h : Step r r') (hr : r.Recorded text) :
    r'.Recorded text := by
  cases h with
  | drop => exact ⟨hr.cursor, hr.scanned⟩
  | scan =>
    have hlength : r.scan.scanned.length = r.scanned.length + 1 := by simp [Reader.scan]
    constructor
    · rw [hlength, Cursor.after, ← hr.cursor]
      rfl
    · rw [hlength, Cursor.trace_eq_map, List.range_succ, List.map_append, ← Cursor.trace_eq_map,
        List.map_append, ← hr.scanned, List.map_singleton, List.map_singleton, ← hr.cursor]
      rfl

/-- Tokens are only added to those that were taken. -/
theorem Reaches.taken {r r' : Reader} (h : r.Reaches r') : ∃ run, r'.taken = r.taken ++ run := by
  refine h.keeps (P := fun s => ∃ run, s.taken = r.taken ++ run) ?_ ⟨[], by simp⟩
  rintro s s' hs ⟨run, hrun⟩
  cases hs with
  | scan => exact ⟨run, hrun⟩
  | drop => exact ⟨run ++ s.peeked.toList, by rw [Reader.drop, hrun, List.append_assoc]⟩

/-- At least one more token was taken. -/
def Consumes (r r' : Reader) : Prop := ∃ t ts, r'.taken = r.taken ++ t :: ts

theorem consumes_of_drop {r r' : Reader} {t : Token} (hp : r.peeked = some t)
    (h : r.drop.Reaches r') : r.Consumes r' := by
  obtain ⟨run, hrun⟩ := h.taken
  refine ⟨t, run, ?_⟩
  rw [hrun, drop, hp]
  simp

theorem Consumes.of_taken {q r r' : Reader} (h : q.Consumes r') (heq : q.taken = r.taken) :
    r.Consumes r' := by
  rw [Consumes, ← heq]
  exact h

theorem Consumes.length_lt {r r' : Reader} (h : r.Consumes r') : r.taken.length < r'.taken.length := by
  obtain ⟨t, ts, h⟩ := h
  rw [h, List.length_append, List.length_cons]
  omega

/-- Once the end of the text has been found, nothing is left to read. -/
def Sound (r : Reader) : Prop := r.scanned.any Cursor.isEnd = true → r.cursor.rest = []

theorem Step.sound {r r' : Reader} (h : Step r r') (hr : r.Sound) : r'.Sound := by
  cases h with
  | drop => exact hr
  | scan =>
    intro hend
    rw [Reader.scan, List.any_append, Bool.or_eq_true, List.any_cons, List.any_nil,
      Bool.or_false] at hend
    have hnext : Cursor.isEnd r.cursor.next.1 = true := by
      rcases hend with hend | hend
      · exact Cursor.isEnd_next_of_rest (hr hend)
      · exact hend
    rw [Reader.scan, Cursor.next_of_isEnd hnext]

theorem Reaches.balanced {r r' : Reader} (h : r.Reaches r') (hr : r.Balanced) : r'.Balanced :=
  h.keeps Step.balanced hr

theorem Reaches.sound {r r' : Reader} (h : r.Reaches r') (hr : r.Sound) : r'.Sound :=
  h.keeps Step.sound hr

/-! ## Descents -/

/-- A step of a descent that goes well: the scanner finds a token, or one that is not the end of the text
is taken. -/
inductive Advance : Reader → Reader → Prop
  | scan {r : Reader} {t : Token} (h : r.peeked = none) (ht : r.cursor.next.1 = .ok t) :
      Advance r r.scan
  | drop {r : Reader} {t : Token} (h : r.peeked = some t) (ht : t.isEof = false) : Advance r r.drop

abbrev Advances : Reader → Reader → Prop := Relation.ReflTransGen Advance

/-- The last step of a descent that fails: the scanner finds a fault, or the buffered token is complained
about, and stays or is taken. -/
inductive Stop : Reader → ParseError → Reader → Prop
  | lexical {r : Reader} {e : LexicalError} (h : r.peeked = none) (he : r.cursor.next.1 = .error e) :
      Stop r (.lexical e) r.scan
  | peeked {r : Reader} {e : SyntaxError} (h : r.peeked = some e.found) : Stop r (.grammar e) r
  | taken {r : Reader} {e : SyntaxError} (h : r.peeked = some e.found) : Stop r (.grammar e) r.drop

theorem Advance.step {r r' : Reader} (h : Advance r r') : Step r r' := by
  cases h with
  | scan h => exact .scan h
  | drop h => exact .drop h

theorem Advances.reaches {r r' : Reader} (h : r.Advances r') : r.Reaches r' := by
  induction h with
  | refl => exact .refl
  | tail _ h ih => exact ih.tail h.step

theorem Advances.sound {r r' : Reader} (h : r.Advances r') (hr : r.Sound) : r'.Sound :=
  h.reaches.sound hr

theorem Stop.reaches {r r' : Reader} {e : ParseError} (h : Stop r e r') : r.Reaches r' := by
  cases h with
  | lexical h => exact .single (.scan h)
  | peeked => exact .refl
  | taken h => exact .single (.drop h)

/-- What a descent that comes to this does with the reader. -/
def Leads {α : Type} (r : Reader) (a : Except ParseError α) (r' : Reader) : Prop :=
  match a with
  | .ok _ => r.Advances r'
  | .error e => ∃ q, r.Advances q ∧ q.Stop e r'

theorem Leads.reaches {α : Type} {r r' : Reader} {a : Except ParseError α} (h : r.Leads a r') :
    r.Reaches r' := by
  cases a with
  | ok a => exact Advances.reaches h
  | error e =>
    obtain ⟨q, hq, hstop⟩ := h
    exact hq.reaches.trans hstop.reaches

/-- A fault empties the buffer, and is the last that the scanner has found. -/
theorem Leads.lexical {α : Type} {r r' : Reader} {e : LexicalError}
    (h : r.Leads (α := α) (.error (.lexical e)) r') :
    r'.peeked = none ∧ r'.scanned.getLast? = some (.error e) := by
  obtain ⟨q, -, hstop⟩ := h
  cases hstop with
  | lexical _ he => simp [scan, he, Except.toOption]

/-- How much is left to read: the characters that the scanner has not read, and the buffered token unless
it is the end of the text. -/
def unread (r : Reader) : Nat := r.cursor.rest.length + r.peeked.toList.countP (!·.isEof)

/-- What the scanner finds was left to read before. -/
theorem unread_scan_le {r : Reader} (h : r.peeked = none) : r.scan.unread ≤ r.unread := by
  have hpeeked : r.scan.peeked = r.cursor.next.1.toOption := rfl
  have hrest : r.scan.cursor = r.cursor.next.2 := rfl
  rw [unread, unread, h, hpeeked, hrest]
  rcases r.cursor.isEnd_or_next_lt with ⟨eof, he, heof⟩ | ⟨-, hlt⟩
  · rw [Cursor.next_of_isEnd (by rw [he]; exact heof)]
    exact Nat.zero_le _
  · have hcount : r.cursor.next.1.toOption.toList.countP (!·.isEof) ≤ 1 :=
      Nat.le_trans List.countP_le_length (by cases r.cursor.next.1 <;> simp [Except.toOption])
    omega

theorem Step.unread_le {r r' : Reader} (h : Step r r') : r'.unread ≤ r.unread := by
  cases h with
  | scan h => exact unread_scan_le h
  | drop h => exact Nat.add_le_add_left (Nat.zero_le _) _

theorem Reaches.unread_le {r r' : Reader} (h : r.Reaches r') : r'.unread ≤ r.unread :=
  h.keeps (P := fun s => s.unread ≤ r.unread) (fun hs hle => Nat.le_trans hs.unread_le hle)
    (Nat.le_refl _)

/-- Each token that is taken was left to read before. -/
theorem Advances.unread_add_le {r r' : Reader} (h : r.Advances r') :
    r'.unread + r'.taken.length ≤ r.unread + r.taken.length := by
  induction h with
  | refl => exact Nat.le_refl _
  | @tail s s' _ hs ih =>
    refine Nat.le_trans ?_ ih
    cases hs with
    | @drop t h ht =>
      have hcount : [t].countP (!·.isEof) = 1 := by simp [ht]
      simp only [unread, Reader.drop, h, Option.toList_some, Option.toList_none, hcount,
        List.countP_nil, List.length_append, List.length_singleton]
      omega
    | scan h => exact Nat.add_le_add_right (unread_scan_le h) _

theorem Advances.unread_le {r r' : Reader} (h : r.Advances r') : r'.unread ≤ r.unread :=
  h.reaches.unread_le

theorem Advances.unread_lt {r r' : Reader} (h : r.Advances r') (hc : r.Consumes r') :
    r'.unread < r.unread := by
  have hle := h.unread_add_le
  have hlt := hc.length_lt
  omega

section
variable {text : List Char} {r : Reader} (h : (start text).Reaches r)
include h

theorem sound_of_start : r.Sound := h.sound fun hend => by simp [start] at hend

theorem recorded_of_start : r.Recorded text := h.keeps Step.recorded ⟨rfl, rfl⟩

theorem balanced_of_start : r.Balanced := h.balanced rfl

theorem unread_of_start : r.unread ≤ text.length := h.unread_le

end

/-- What the scanner is going to find, up to and including the end of the text. -/
def ahead (r : Reader) : List Scanned :=
  if r.scanned.any Cursor.isEnd then [] else r.cursor.results

/-- The text is read so far without a fault, and its end was not taken. -/
structure Clean (text : List Char) (r : Reader) : Prop where
  scanned : r.scanned = (r.taken ++ r.peeked.toList).map .ok
  inner : ∀ t ∈ r.taken, t.isEof = false
  results : (Cursor.start text).results = r.scanned ++ r.ahead

/-- Among what the scanner has found of the text, all but the last are tokens other than its end. -/
structure Ended (text : List Char) (r : Reader) : Prop where
  scanned : ∃ (ts : List Token) (last : List Scanned), r.scanned = ts.map .ok ++ last ∧
    (∀ t ∈ ts, t.isEof = false) ∧ last.length ≤ 1
  results : r.scanned <+: (Cursor.start text).results

theorem start_clean (text : List Char) : (start text).Clean text := ⟨rfl, by simp [start], rfl⟩

section
variable {text : List Char} {r r' : Reader}

theorem Clean.any_isEnd (h : r.Clean text) (hp : r.peeked = none) :
    r.scanned.any Cursor.isEnd = false := by
  rw [h.scanned, hp, Option.toList_none, List.append_nil, List.any_eq_false]
  intro s hs
  obtain ⟨t, ht, rfl⟩ := List.mem_map.1 hs
  simpa [Cursor.isEnd] using h.inner t ht

theorem Clean.scan_results (h : r.Clean text) (hp : r.peeked = none) :
    (Cursor.start text).results = r.scan.scanned ++ r.scan.ahead := by
  have hany := h.any_isEnd hp
  rw [h.results, ahead, hany, ahead, Reader.scan, Cursor.results_cons]
  simp only [List.any_append, hany, List.any_cons, List.any_nil, Bool.or_false, Bool.false_or,
    Bool.false_eq_true, if_false]
  split <;> simp

theorem Advance.clean (h : Advance r r') (hr : r.Clean text) : r'.Clean text := by
  cases h with
  | scan hp ht =>
    refine ⟨?_, hr.inner, hr.scan_results hp⟩
    rw [Reader.scan, hr.scanned, hp, ht]
    simp [Except.toOption]
  | drop hp ht =>
    refine ⟨?_, ?_, hr.results⟩
    · rw [Reader.drop, hr.scanned, Option.toList_none, List.append_nil]
    · rw [Reader.drop, hp]
      exact List.forall_mem_append.2 ⟨hr.inner, by simpa using ht⟩

theorem Advances.clean (h : r.Advances r') (hr : r.Clean text) : r'.Clean text := by
  induction h with
  | refl => exact hr
  | tail _ h ih => exact h.clean ih

theorem Clean.ended (h : r.Clean text) : r.Ended text where
  scanned := by
    refine ⟨r.taken, r.peeked.toList.map .ok, ?_, h.inner, ?_⟩
    · rw [h.scanned, List.map_append]
    · cases r.peeked <;> simp
  results := h.results ▸ List.prefix_append ..

/-- A failure adds at most one more to what the scanner has found. -/
theorem Stop.ended {e : ParseError} (h : Stop r e r') (hr : r.Clean text) : r'.Ended text := by
  cases h with
  | lexical hp =>
    refine ⟨⟨r.taken, [r.cursor.next.1], ?_, hr.inner, Nat.le_refl _⟩, ?_⟩
    · rw [Reader.scan, hr.scanned, hp, Option.toList_none, List.append_nil]
    · rw [hr.scan_results hp]
      exact List.prefix_append ..
  | peeked => exact hr.ended
  | taken => exact ⟨hr.ended.scanned, hr.ended.results⟩

theorem Leads.ended {α : Type} {a : Except ParseError α} (h : r.Leads a r') (hr : r.Clean text) :
    r'.Ended text := by
  cases a with
  | ok a => exact (Advances.clean h hr).ended
  | error e =>
    obtain ⟨q, hq, hstop⟩ := h
    exact hstop.ended (hq.clean hr)

end

end Reader

/-- The tokens in front of some results come first among their tokens. -/
theorem tokenize.collect_append (ts : List Token) (rest : List Scanned) :
    (tokenize.collect (ts.map .ok ++ rest)).1 = ts ++ (tokenize.collect rest).1 := by
  induction ts with
  | nil => rfl
  | cons t ts ih => exact congrArg (t :: ·) ih

theorem Cursor.length_results_le (c : Cursor) : c.results.length ≤ c.rest.length + 1 := by
  have hle (n : Nat) : ∀ c : Cursor, (scan n c).length ≤ n := by
    induction n with
    | zero => exact fun _ => Nat.le_refl _
    | succ n ih =>
      intro c
      rw [scan_succ]
      split
      · simp
      · exact Nat.succ_le_succ (ih _)
  exact hle _ c

namespace Reader.Ended

variable {text : List Char} {r : Reader} (h : r.Ended text)
include h

/-- The scanner is called at most once more than the text has tokens in front of its end. -/
theorem length_scanned_le : r.scanned.length ≤ (tokenize text).1.countP (!·.isEof) + 1 := by
  obtain ⟨ts, last, hs, hts, hlast⟩ := h.scanned
  obtain ⟨rest, hrest⟩ := h.results
  have htokens : (tokenize text).1 = ts ++ (tokenize.collect (last ++ rest)).1 := by
    rw [tokenize, ← hrest, hs, List.append_assoc, tokenize.collect_append]
  have hcount : ts.countP (!·.isEof) = ts.length :=
    List.countP_eq_length.2 fun t ht => by simp [hts t ht]
  rw [hs, List.length_append, List.length_map, htokens, List.countP_append, hcount]
  omega

theorem length_scanned_le_text : r.scanned.length ≤ text.length + 1 :=
  Nat.le_trans h.results.length_le (Cursor.length_results_le _)

theorem countP_isEnd_le : r.scanned.countP Cursor.isEnd ≤ 1 := by
  obtain ⟨ts, last, hs, hts, hlast⟩ := h.scanned
  have hnone : (ts.map Except.ok).countP Cursor.isEnd = 0 := by
    rw [List.countP_eq_zero]
    intro s hmem
    obtain ⟨t, ht, rfl⟩ := List.mem_map.1 hmem
    simpa [Cursor.isEnd] using hts t ht
  rw [hs, List.countP_append, hnone, Nat.zero_add]
  exact Nat.le_trans List.countP_le_length hlast

end Reader.Ended

end SmallLisp

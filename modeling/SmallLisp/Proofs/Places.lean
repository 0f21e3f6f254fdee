import SmallLisp.Proofs.Scanning

/-!
# Places in a text

A position is right if its line and column can be counted from the characters in front of it
(`Position.behind`). A cursor that stands right in a text does so after every call, whether the call
finds a token, a fault or the end (`Cursor.StandsIn.next`), and a token stands where it says
(`Cursor.StandsIn.token`). Main statement: `Cursor.calls_on_text`, what any number of calls come to,
faults and the end being passed over.
-/

set_option autoImplicit false

namespace SmallLisp

/-- The index just past the last newline; zero if there is none. -/
def lineStart (before : List Char) : Nat := (before.reverse.dropWhile (· ≠ '\n')).length

theorem lineStart_le_length (before : List Char) : lineStart before ≤ before.length := by
  have h := (List.dropWhile_sublist (fun c => decide (c ≠ '\n')) (l := before.reverse)).length_le
  rwa [List.length_reverse] at h

theorem lineStart_newline (before : List Char) :
    lineStart (before ++ ['\n']) = before.length + 1 := by
  simp [lineStart]

theorem lineStart_other {c : Char} (hc : c ≠ '\n') (before : List Char) :
    lineStart (before ++ [c]) = lineStart before := by
  simp [lineStart, hc]

namespace Position

/-- The place behind some characters, as it is counted from them. -/
def behind (before : List Char) : Position where
  line := 1 + before.count '\n'
  column := 1 + (before.length - lineStart before)
  offset := before.length

/-- The position is that of a place in the text. -/
structure IsIn (p : Position) (text : List Char) : Prop where
  offset_le : p.offset ≤ text.length
  eq_behind : p = behind (text.take p.offset)

theorem after_behind (before : List Char) (c : Char) :
    (behind before).after c = behind (before ++ [c]) := by
  have hle := lineStart_le_length before
  by_cases hc : c = '\n'
  · subst hc
    simp only [after, if_true, behind, lineStart_newline, List.count_append,
      List.count_singleton_self, List.length_append, List.length_singleton, mk.injEq, and_true]
    omega
  · have hcount : [c].count '\n' = 0 := by simp [hc]
    simp only [after, if_neg hc, behind, lineStart_other hc, List.count_append, hcount,
      List.length_append, List.length_singleton, mk.injEq, and_true]
    omega

theorem through_behind (before cs : List Char) :
    (behind before).through cs = behind (before ++ cs) := by
  induction cs generalizing before with
  | nil => rw [through_nil, List.append_nil]
  | cons c cs ih => rw [through_cons, after_behind, ih, List.append_assoc, List.singleton_append]

theorem behind_isIn (before rest : List Char) : (behind before).IsIn (before ++ rest) where
  offset_le := by simp [behind]
  eq_behind := by
    show behind before = behind ((before ++ rest).take before.length)
    rw [List.take_left]

end Position

/-- The token is what some characters begin with: the longest lexeme at their head, or the end of the
text if there are none. -/
def Token.Heads (t : Token) (rest : List Char) : Prop :=
  t.isEof = true ∧ rest = [] ∨ ∃ w tail, rest = w ++ tail ∧ Spells w t.lexeme ∧ Longest w rest

/-- The token stands in the text where it says. -/
structure Token.StandsIn (t : Token) (text : List Char) : Prop where
  isIn : t.position.IsIn text
  heads : t.Heads (text.drop t.position.offset)

namespace Cursor

/-- The cursor stands in a text: behind what it has passed over, and in front of the rest. -/
def StandsIn (text : List Char) (c : Cursor) : Prop :=
  ∃ before, text = before ++ c.rest ∧ c.position = .behind before

theorem start_standsIn (text : List Char) : (start text).StandsIn text := ⟨[], rfl, rfl⟩

/-- A call leaves the cursor behind the layout and behind what is read there. -/
theorem next_snd (c : Cursor) :
    c.next.2 = c.skipLayout.advance (Lexeme.read c.skipLayout.rest).width := by
  rw [next]
  split <;> rfl

namespace StandsIn

variable {text : List Char} {c : Cursor}

theorem isIn (h : c.StandsIn text) : c.position.IsIn text := by
  obtain ⟨before, rfl, hp⟩ := h
  exact hp ▸ Position.behind_isIn before c.rest

theorem rest_eq (h : c.StandsIn text) : c.rest = text.drop c.position.offset := by
  obtain ⟨before, rfl, hp⟩ := h
  rw [hp]
  exact List.drop_left.symm

theorem advance (h : c.StandsIn text) (width : Nat) : (c.advance width).StandsIn text := by
  obtain ⟨before, rfl, hp⟩ := h
  refine ⟨before ++ c.rest.take width, ?_, ?_⟩
  · rw [Cursor.advance, List.append_assoc, List.take_append_drop]
  · rw [Cursor.advance, hp, Position.through_behind]

theorem next (h : c.StandsIn text) : c.next.2.StandsIn text := by
  rw [next_snd]
  exact (h.advance _).advance _

/-- Whatever a call finds is reported at a place in the text. -/
theorem reported (h : c.StandsIn text) :
    (∀ t, c.next.1 = .ok t → t.position.IsIn text) ∧
      ∀ e, c.next.1 = .error e → e.position.IsIn text := by
  have hstart := h.advance (layoutWidth false c.rest)
  have hstop := hstart.advance (Lexeme.read c.skipLayout.rest).width
  rw [Cursor.next]
  split
  · constructor
    · intro t ht
      cases ht
      exact hstart.isIn
    · intro e he
      cases he
  · constructor
    · intro t ht
      cases ht
    · intro e he
      cases he
      unfold blame
      split
      · exact hstart.isIn
      · exact hstop.isIn

/-- A token is found behind the layout that the call has passed over. -/
theorem split_of_next (h : c.StandsIn text) {t : Token} (ht : c.next.1 = .ok t) :
    ∃ before skipped rest, text = before ++ skipped ++ rest ∧ c.position = .behind before ∧
      t.position = .behind (before ++ skipped) ∧ Layout skipped rest ∧ t.Heads rest := by
  obtain ⟨skipped, rest, hc, hl⟩ := c.exists_skipped
  have hfound : t.position = c.position.through skipped ∧ t.Heads rest := by
    have hs := step_next hc hl
    generalize c.next = found at hs ht
    cases hs with
    | eof hrest => cases ht; exact ⟨rfl, .inl ⟨rfl, hrest⟩⟩
    | token hrest hx hlong => cases ht; exact ⟨rfl, .inr ⟨_, _, hrest, hx, hlong⟩⟩
    | fault => cases ht
  obtain ⟨before, htext, hp⟩ := h
  refine ⟨before, skipped, rest, ?_, hp, ?_, hl, hfound.2⟩
  · rw [htext, hc, List.append_assoc]
  · rw [hfound.1, hp, Position.through_behind]

theorem layout_of_next (h : c.StandsIn text) {t : Token} (ht : c.next.1 = .ok t) :
    c.position.offset ≤ t.position.offset ∧
      Layout ((text.take t.position.offset).drop c.position.offset)
        (text.drop t.position.offset) := by
  obtain ⟨before, skipped, rest, rfl, hc, hposition, hl, -⟩ := h.split_of_next ht
  have hoffset : t.position.offset = (before ++ skipped).length := hposition ▸ rfl
  have hstart : c.position.offset = before.length := hc ▸ rfl
  rw [hoffset, hstart, List.take_left, List.drop_left, List.drop_left]
  exact ⟨by simp, hl⟩

/-- A token that a call finds stands in the text. -/
theorem token (h : c.StandsIn text) {t : Token} (ht : c.next.1 = .ok t) : t.StandsIn text where
  isIn := h.reported.1 t ht
  heads := by
    obtain ⟨before, skipped, rest, rfl, -, hposition, -, hheads⟩ := h.split_of_next ht
    rwa [hposition, Position.behind, List.drop_left]

/-- All that is found from a place on is found by calls that stand in the text. -/
theorem exists_call (h : c.StandsIn text) (n : Nat) {found : Scanned} (hfound : found ∈ scan n c) :
    ∃ c' : Cursor, c'.StandsIn text ∧ c'.next.1 = found := by
  induction n generalizing c with
  | zero => cases hfound
  | succ n ih =>
    have hfound : found ∈ if isEnd c.next.1 then [c.next.1] else c.next.1 :: scan n c.next.2 := hfound
    split at hfound
    · exact ⟨c, h, (List.mem_singleton.1 hfound).symm⟩
    · rcases List.mem_cons.1 hfound with heq | hmem
      · exact ⟨c, h, heq.symm⟩
      · exact ih h.next hmem

end StandsIn

/-- Whatever is found in a text is reported at a place in it, a token where it stands. -/
theorem reported_of_mem_results (text : List Char) :
    (∀ t, .ok t ∈ (start text).results → t.StandsIn text) ∧
      ∀ e, .error e ∈ (start text).results → e.position.IsIn text := by
  constructor
  · intro t ht
    obtain ⟨c, hc, hnext⟩ := (start_standsIn text).exists_call _ ht
    exact hc.token hnext
  · intro e he
    obtain ⟨c, hc, hnext⟩ := (start_standsIn text).exists_call _ he
    exact hc.reported.2 e hnext

/-! ## The end of the text -/

/-- A call finds the end exactly if nothing but layout is left. -/
theorem isEnd_next_iff (c : Cursor) : isEnd c.next.1 = true ↔ Layout c.rest [] := by
  obtain ⟨skipped, rest, hc, hl⟩ := c.exists_skipped
  have hrest : isEnd c.next.1 = true ↔ rest = [] := by
    have hs := step_next hc hl
    generalize c.next = found at hs ⊢
    cases hs with
    | eof hrest => exact iff_of_true rfl hrest
    | token hrest hx =>
      refine iff_of_false ?_ (by simp [hrest, hx.ne_nil])
      exact fun h => hx.ne_eof (Token.isEof_iff.1 h)
    | fault fault hf => exact iff_of_false nofun fun h => not_faulty_nil (h ▸ hf)
  rw [hrest]
  constructor
  · rintro rfl
    rwa [hc, List.append_nil]
  · intro h
    exact (hl.unique h (hc.symm.trans (List.append_nil _).symm)).2

/-- The end is found again by the next call. -/
theorem isEnd_next_next {c : Cursor} (h : isEnd c.next.1 = true) : isEnd c.next.2.next.1 = true := by
  have hrest : c.next.2.rest = [] := by
    obtain ⟨skipped, rest, hc, hl⟩ := c.exists_skipped
    have hs := step_next hc hl
    generalize c.next = found at hs h ⊢
    cases hs with
    | eof => rfl
    | token hrest hx => exact absurd (Token.isEof_iff.1 h) hx.ne_eof
    | fault => cases h
  rw [isEnd_next_iff, hrest]
  exact .nothing (by simp)

/-! ## Any number of calls -/

/-- The cursor after so many calls. -/
def after : Nat → Cursor → Cursor
  | 0, c => c
  | calls + 1, c => (after calls c).next.2

theorem after_succ (c : Cursor) : ∀ n, c.after (n + 1) = c.next.2.after n
  | 0 => rfl
  | n + 1 => congrArg (·.next.2) (after_succ c n)

/-- What the calls find in turn, and where they leave the cursor. -/
theorem trace_eq_map (n : Nat) (c : Cursor) : trace n c =
    (List.range n).map fun k => ((c.after k).next.1, (c.after (k + 1)).position) := by
  induction n generalizing c with
  | zero => rfl
  | succ n ih =>
    show (c.next.1, c.next.2.position) :: trace n c.next.2 = _
    rw [ih, List.range_succ_eq_map, List.map_cons, List.map_map]
    simp only [Function.comp_def, Nat.succ_eq_add_one, after_succ]
    rfl

section
variable {text : List Char} {c : Cursor} (h : c.StandsIn text)
include h

theorem StandsIn.after : ∀ n, (c.after n).StandsIn text
  | 0 => h
  | n + 1 => (StandsIn.after n).next

/-- A call that does not find the end moves the cursor. -/
theorem StandsIn.offset_lt (hn : isEnd c.next.1 = false) :
    c.position.offset < c.next.2.position.offset := by
  rcases c.isEnd_or_next_lt with ⟨eof, he, heof⟩ | ⟨-, hlt⟩
  · rw [he] at hn
    cases hn.symm.trans heof
  · have hlen := congrArg List.length h.rest_eq
    have hlen' := congrArg List.length h.next.rest_eq
    rw [List.length_drop] at hlen hlen'
    omega

/-- As long as the end is not found, there are at least as many characters behind as calls. -/
theorem StandsIn.le_offset : ∀ n, (∀ i < n, isEnd (c.after i).next.1 = false) →
    n ≤ (c.after n).position.offset
  | 0, _ => Nat.zero_le _
  | n + 1, hn => by
    have hle := StandsIn.le_offset n fun i hi => hn i (Nat.lt_succ_of_lt hi)
    exact Nat.lt_of_le_of_lt hle ((h.after n).offset_lt (hn n (Nat.lt_succ_self n)))

end

theorem isEnd_after {c : Cursor} {n : Nat} (h : isEnd (c.after n).next.1 = true) :
    ∀ k, isEnd (c.after (n + k)).next.1 = true
  | 0 => h
  | k + 1 => isEnd_next_next (isEnd_after h k)

/-- The end is found after at most as many other results as there are characters. -/
theorem exists_end (text : List Char) : ∃ k ≤ text.length,
    isEnd ((start text).after k).next.1 = true ∧
      ∀ i < k, isEnd ((start text).after i).next.1 = false := by
  have hstart := start_standsIn text
  have hend : ∃ k ≤ text.length, isEnd ((start text).after k).next.1 = true := by
    by_contra hno
    have hle := hstart.le_offset (text.length + 1) fun i hi => by
      by_contra h
      exact hno ⟨i, Nat.le_of_lt_succ hi, Bool.not_eq_false _ ▸ h⟩
    have := (hstart.after (text.length + 1)).isIn.offset_le
    omega
  classical
  refine ⟨Nat.find hend, (Nat.find_spec hend).1, (Nat.find_spec hend).2, fun i hi => ?_⟩
  have hnot := Nat.find_min hend hi
  have hle := Nat.le_trans (Nat.le_of_lt hi) (Nat.find_spec hend).1
  simpa [hle] using hnot

/-- **The scanner keeps its place.** After any number of calls on a text, whatever they have found, the
position is that of a place in the text, with the line and the column that are counted from there. A
call that does not find the end moves on; a token stands where the call before has stopped, or further
on with nothing but layout between. The end is found exactly when nothing but layout is left, and by
every call from then on, which is after at most as many other results as the text has characters. -/
theorem calls_on_text (text : List Char) :
    (∀ n, trace n (start text) = (List.range n).map fun k =>
      (((start text).after k).next.1, ((start text).after (k + 1)).position)) ∧
    (∀ n, let c := (start text).after n
      c.position.IsIn text ∧
      (isEnd c.next.1 = false → c.position.offset < ((start text).after (n + 1)).position.offset) ∧
      (∀ t, c.next.1 = .ok t → t.position.IsIn text ∧ c.position.offset ≤ t.position.offset ∧
        Layout ((text.take t.position.offset).drop c.position.offset)
          (text.drop t.position.offset)) ∧
      (isEnd c.next.1 = true ↔ Layout (text.drop c.position.offset) []) ∧
      (isEnd c.next.1 = true → ∀ k, isEnd ((start text).after (n + k)).next.1 = true)) ∧
    ∃ k ≤ text.length, isEnd ((start text).after k).next.1 = true ∧
      ∀ i < k, isEnd ((start text).after i).next.1 = false := by
  refine ⟨fun n => trace_eq_map n _, fun n => ?_, exists_end text⟩
  have h := (start_standsIn text).after n
  refine ⟨h.isIn, h.offset_lt, fun t ht => ⟨h.reported.1 t ht, h.layout_of_next ht⟩, ?_, isEnd_after⟩
  rw [← h.rest_eq]
  exact isEnd_next_iff _

end Cursor

end SmallLisp

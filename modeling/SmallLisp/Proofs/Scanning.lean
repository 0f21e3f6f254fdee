import SmallLisp.Proofs.LongestMatch

/-!
# The scanner and the lexical grammar

A call of the scanner passes over layout and reads the longest lexeme behind it; `Cursor.Step` lists
what it can come to. Main statement: `Cursor.next_longest`. A call that does not find the end of the
text moves the cursor, so all calls together find tokens and faults and at last the end
(`Cursor.results_eq`); they find what has been laid out in a text (`Laid.yields`).
-/

set_option autoImplicit false

namespace SmallLisp

theorem Spells.ne_eof {w : List Char} {x : Lexeme} (h : Spells w x) : x ≠ .eof := by
  rintro rfl
  cases h

theorem not_faulty_nil : ¬ Faulty [] := fun h => Lexeme.read_ne_ok_of_faulty h .eof rfl

theorem toNat_lt_of_isWordStart {c : Char} (h : isWordStart c = true) : c.toNat < 123 := by
  have h : ((decide ('A' ≤ c ∧ c ≤ 'Z') || ('a' ≤ c && c ≤ 'z')) || c = '_') = true := h
  simp only [Bool.or_eq_true, Bool.and_eq_true, decide_eq_true_eq] at h
  obtain (⟨-, h⟩ | ⟨-, h⟩) | rfl := h
  · have : c.toNat ≤ 'Z'.toNat := h
    exact Nat.lt_of_le_of_lt this (by decide)
  · have : c.toNat ≤ 'z'.toNat := h
    exact Nat.lt_of_le_of_lt this (by decide)
  · decide

/-- No lexeme begins with a blank or a semicolon, so that nothing in front of it is passed over. -/
theorem Spells.layout {w : List Char} {x : Lexeme} (h : Spells w x) (tail : List Char) :
    Layout [] (w ++ tail) := by
  obtain ⟨c, w, rfl⟩ := List.exists_cons_of_ne_nil h.ne_nil
  refine .nothing ?_
  rintro _ ⟨rfl⟩
  obtain hd | hq | hw | hp := Lexeme.head_of_spells h
  · have hall : ∀ d ∈ Radix.decimal.digits,
        (CodePoint.ofChar d.1).isBlank = false ∧ d.1 ≠ ';' := by decide
    obtain ⟨v, hv⟩ := Radix.exists_digit hd
    exact hall (c, v) hv
  · obtain rfl | rfl := hq <;> decide
  · have hall : ∀ n ∈ List.range 123, isWordStart (Char.ofNat n) = true →
        (CodePoint.ofChar (Char.ofNat n)).isBlank = false ∧ Char.ofNat n ≠ ';' := by
      decide +kernel
    have := hall c.toNat (List.mem_range.2 (toNat_lt_of_isWordStart hw))
    rw [Char.ofNat_toNat] at this
    exact this hw
  · unfold Punct.ofChar? at hp
    split at hp <;> first | decide | cases hp

/-- No lexeme at the head of the text is longer than `w`. -/
def Longest (w rest : List Char) : Prop :=
  ∀ w' tail x, rest = w' ++ tail → Spells w' x → w'.length ≤ w.length

namespace Cursor

/-- What a call comes to that passes over the layout `skipped` in front of `rest`, and where it leaves
the cursor. -/
inductive Step (c : Cursor) (skipped rest : List Char) : Scanned × Cursor → Prop
  | eof (hrest : rest = []) :
      Step c skipped rest (.ok ⟨.eof, c.position.through skipped⟩,
        ⟨[], c.position.through skipped⟩)
  | token {w tail : List Char} {x : Lexeme} (hrest : rest = w ++ tail) (hx : Spells w x)
      (hlong : Longest w rest) (hf : ¬ Faulty rest) :
      Step c skipped rest (.ok ⟨x, c.position.through skipped⟩,
        ⟨tail, (c.position.through skipped).through w⟩)
  | fault (fault : LexicalFault) {start : Cursor} {width : Nat} (hf : Faulty rest)
      (hwidth : 0 < width) (hstart : start = ⟨rest, c.position.through skipped⟩) :
      Step c skipped rest (.error (blame fault start.position (start.advance width).position),
        start.advance width)

section
variable {c : Cursor} {skipped rest : List Char}

theorem advance_length {w tail : List Char} (h : c.rest = w ++ tail) :
    c.advance w.length = ⟨tail, c.position.through w⟩ := by
  simp [advance, h]

theorem skipLayout_eq (hc : c.rest = skipped ++ rest) (h : Layout skipped rest) :
    c.skipLayout = ⟨rest, c.position.through skipped⟩ := by
  rw [skipLayout, hc, h.layoutWidth_eq, advance_length hc]

theorem step_next (hc : c.rest = skipped ++ rest) (h : Layout skipped rest) :
    Step c skipped rest c.next := by
  rw [next, skipLayout_eq hc h]
  by_cases hrest : rest = []
  · subst hrest
    exact .eof rfl
  have hj := Lexeme.justified_read hrest
  cases hr : Lexeme.read rest with
  | mk outcome width =>
    rw [hr] at hj
    cases hj with
    | error hwidth hf => exact .fault _ hf hwidth rfl
    | @ok w tail x _ hw hwidth hx =>
      have hlong : Longest w rest := by
        rintro w' tail' x' hw' hx'
        have := Lexeme.length_le_of_spells hx' tail'
        rw [← hw', hr] at this
        exact hwidth ▸ this
      subst hwidth
      simp only [advance_length (c := ⟨rest, c.position.through skipped⟩) hw]
      exact .token hw hx hlong fun hf => Lexeme.read_ne_ok_of_faulty hf x (by rw [hr])

end

/-- Every cursor stands in front of some layout, maybe of no width; which, is determined
(`Layout.unique`). -/
theorem exists_skipped (c : Cursor) :
    ∃ skipped rest, c.rest = skipped ++ rest ∧ Layout skipped rest :=
  exists_layout c.rest.length c.rest (Nat.le_refl _)

/-- **The scanner takes the longest lexeme.** Wherever the cursor stands, a call passes over the layout
there. A token other than the end of the text covers a piece of what follows, which spells its lexeme,
and no longer piece spells any. The end is found where nothing follows, and a fault exactly where what
follows is faulty. -/
theorem next_longest (c : Cursor) :
    ∃ skipped rest, c.rest = skipped ++ rest ∧ Layout skipped rest ∧
      (∀ t after, c.next = (.ok t, after) → t.isEof = false →
        t.position = c.position.through skipped ∧
        ∃ w, rest = w ++ after.rest ∧ after.position = t.position.through w ∧
          Spells w t.lexeme ∧ Longest w rest) ∧
      ((∃ t after, c.next = (.ok t, after) ∧ t.isEof = true) ↔ rest = []) ∧
      ((∃ e after, c.next = (.error e, after)) ↔ Faulty rest) := by
  obtain ⟨skipped, rest, hc, h⟩ := c.exists_skipped
  have hs := step_next hc h
  refine ⟨skipped, rest, hc, h, ?_⟩
  generalize c.next = found at hs ⊢
  cases hs with
  | eof hrest =>
    refine ⟨fun t after hn ht => ?_, ?_, ?_⟩
    · cases hn
      cases ht
    · exact iff_of_true ⟨_, _, rfl, rfl⟩ hrest
    · exact iff_of_false (by simp) (hrest ▸ not_faulty_nil)
  | token hrest hx hlong hf =>
    refine ⟨fun t after hn ht => ?_, ?_, ?_⟩
    · cases hn
      exact ⟨rfl, _, hrest, rfl, hx, hlong⟩
    · refine iff_of_false ?_ (by simp [hrest, hx.ne_nil])
      rintro ⟨t, after, hn, ht⟩
      cases hn
      exact hx.ne_eof (Token.isEof_iff.1 ht)
    · exact iff_of_false (by simp) hf
  | fault fault hf hwidth =>
    refine ⟨by simp, iff_of_false (by simp) ?_, iff_of_true ⟨_, _, rfl⟩ hf⟩
    rintro rfl
    exact not_faulty_nil hf

/-! ## Lexemes that are kept apart -/

/-- A call reads a lexeme that stands behind some layout and is kept apart from what follows. -/
theorem next_of_spells {c : Cursor} {skipped w tail : List Char} {x : Lexeme}
    (hc : c.rest = skipped ++ (w ++ tail)) (hl : Layout skipped (w ++ tail)) (hx : Spells w x)
    (hs : Lexeme.Separates tail) :
    c.next = (.ok ⟨x, c.position.through skipped⟩,
      ⟨tail, (c.position.through skipped).through w⟩) := by
  have hstop := advance_length (c := ⟨w ++ tail, c.position.through skipped⟩) rfl
  rw [next, skipLayout_eq hc hl]
  simp only [Lexeme.read_of_spells hx hs, hstop]

/-! ## All calls -/

/-- A call finds the end of the text or leaves less of it. -/
theorem isEnd_or_next_lt (c : Cursor) :
    (∃ eof, c.next.1 = .ok eof ∧ eof.isEof = true) ∨
      isEnd c.next.1 = false ∧ c.next.2.rest.length < c.rest.length := by
  obtain ⟨skipped, rest, hc, h⟩ := c.exists_skipped
  have hs := step_next hc h
  have hlen : c.rest.length = skipped.length + rest.length := by rw [hc, List.length_append]
  generalize c.next = found at hs ⊢
  cases hs with
  | eof => exact .inl ⟨_, rfl, rfl⟩
  | token hrest hx =>
    refine .inr ⟨?_, ?_⟩
    · rw [isEnd, ← Bool.not_eq_true, Token.isEof_iff]
      exact hx.ne_eof
    · have := List.length_pos_iff.2 hx.ne_nil
      simp only [hlen, hrest, List.length_append]
      omega
  | fault fault hf hwidth hstart =>
    refine .inr ⟨rfl, ?_⟩
    have : rest ≠ [] := fun hn => not_faulty_nil (hn ▸ hf)
    have := List.length_pos_iff.2 this
    simp only [advance, hstart, List.length_drop]
    omega

theorem scan_eq (n : Nat) : ∀ c : Cursor, c.rest.length < n →
    ∃ found eof, scan n c = found ++ [.ok eof] ∧ eof.isEof = true ∧
      ∀ s ∈ found, isEnd s = false := by
  induction n with
  | zero => intro c h; cases h
  | succ n ih =>
    intro c hn
    rw [scan]
    obtain ⟨eof, hf, he⟩ | ⟨hf, hlt⟩ := c.isEnd_or_next_lt
    · exact ⟨[], eof, by simp [hf, isEnd, he], he, by simp⟩
    · obtain ⟨found, eof, hs, he, hfound⟩ := ih c.next.2 (by omega)
      exact ⟨c.next.1 :: found, eof, by simp [hf, hs], he, List.forall_mem_cons.2 ⟨hf, hfound⟩⟩

/-- All calls together find tokens and faults, and at last the end of the text. -/
theorem results_eq (c : Cursor) : ∃ found eof, c.results = found ++ [.ok eof] ∧
    eof.isEof = true ∧ ∀ s ∈ found, isEnd s = false :=
  scan_eq _ c (Nat.lt_succ_self _)

theorem scan_succ (n : Nat) (c : Cursor) : scan (n + 1) c =
    if isEnd c.next.1 then [c.next.1] else c.next.1 :: scan n c.next.2 := rfl

/-- More calls than there are characters find no more. -/
theorem scan_eq_results (n : Nat) : ∀ c : Cursor, c.rest.length < n → scan n c = c.results := by
  induction n using Nat.strongRecOn with
  | ind n ih =>
    intro c hn
    obtain ⟨n, rfl⟩ := Nat.exists_eq_succ_of_ne_zero (Nat.ne_of_gt (Nat.zero_lt_of_lt hn))
    rw [results, scan_succ, scan_succ]
    obtain ⟨eof, hf, he⟩ | ⟨hf, hlt⟩ := c.isEnd_or_next_lt
    · simp [hf, isEnd, he]
    · have h := ih n (Nat.lt_succ_self n) c.next.2 (by omega)
      have h' := ih c.rest.length hn c.next.2 hlt
      simp only [h, h']

/-- One call, and then all the others. -/
theorem results_cons (c : Cursor) :
    c.results = if isEnd c.next.1 then [c.next.1] else c.next.1 :: c.next.2.results := by
  rw [results, scan_succ]
  obtain ⟨eof, hf, he⟩ | ⟨hf, hlt⟩ := c.isEnd_or_next_lt
  · simp [hf, isEnd, he]
  · rw [scan_eq_results _ _ hlt]

/-- The calls find these tokens in turn, and then the end of the text. -/
inductive Yields : Cursor → List Token → Prop
  | nil {c : Cursor} (h : isEnd c.next.1 = true) : Yields c []
  | cons {c after : Cursor} {t : Token} {ts : List Token} (h : c.next = (.ok t, after))
      (ht : t.isEof = false) (hts : Yields after ts) : Yields c (t :: ts)

theorem yields_iff (ts : List Token) (c : Cursor) : Yields c ts ↔
    (∀ t ∈ ts, t.isEof = false) ∧
      ∃ eof : Token, eof.isEof = true ∧ c.results = ts.map .ok ++ [.ok eof] := by
  constructor
  · intro h
    induction h with
    | @nil c h =>
      rcases hn : c.next.1 with e | eof
      · rw [hn] at h; cases h
      · rw [hn] at h
        exact ⟨by simp, eof, h, by rw [results_cons, hn, if_pos h]; rfl⟩
    | @cons c after t ts hn ht _ ih =>
      obtain ⟨hts, eof, he, hr⟩ := ih
      refine ⟨List.forall_mem_cons.2 ⟨ht, hts⟩, eof, he, ?_⟩
      have hend : isEnd c.next.1 = false := by rw [hn]; exact ht
      rw [results_cons, if_neg (by simp [hend]), hn, hr]
      rfl
  · rintro ⟨hts, eof, he, hr⟩
    induction ts generalizing c with
    | nil =>
      rw [results_cons] at hr
      split at hr
      · rename_i h
        exact .nil h
      · rename_i h
        obtain ⟨hn, -⟩ := List.cons.inj hr
        rw [hn] at h
        exact absurd he h
    | cons t ts ih =>
      obtain ⟨ht, hts⟩ := List.forall_mem_cons.1 hts
      rw [results_cons] at hr
      split at hr
      · rename_i h
        obtain ⟨hn, -⟩ := List.cons.inj hr
        rw [hn] at h
        cases ht.symm.trans h
      · obtain ⟨hn, hr⟩ := List.cons.inj hr
        exact .cons (Prod.ext hn rfl) ht (ih c.next.2 hts hr)

end Cursor

/-- Lexemes are written one after the other, each behind some layout and kept apart from what
follows. -/
inductive Laid : List Char → List Lexeme → Prop
  | nil {skipped : List Char} (h : Layout skipped []) : Laid skipped []
  | cons {skipped w tail : List Char} {x : Lexeme} {xs : List Lexeme}
      (hl : Layout skipped (w ++ tail)) (hx : Spells w x) (hs : Lexeme.Separates tail)
      (h : Laid tail xs) : Laid (skipped ++ (w ++ tail)) (x :: xs)

/-- The scanner finds the lexemes that are laid out. -/
theorem Laid.yields {text : List Char} {xs : List Lexeme} (h : Laid text xs) :
    ∀ pos, ∃ ts, Cursor.Yields ⟨text, pos⟩ ts ∧ ts.map (·.lexeme) = xs := by
  induction h with
  | @nil skipped hl =>
    intro pos
    refine ⟨[], .nil ?_, rfl⟩
    rw [Cursor.next, Cursor.skipLayout_eq (List.append_nil skipped).symm hl]
    rfl
  | @cons skipped w tail x xs hl hx hs _ ih =>
    intro pos
    obtain ⟨ts, hts, hxs⟩ := ih ((pos.through skipped).through w)
    let t : Token := ⟨x, pos.through skipped⟩
    have ht : t.isEof = false := by
      rw [← Bool.not_eq_true, Token.isEof_iff]
      exact hx.ne_eof
    refine ⟨t :: ts, .cons (Cursor.next_of_spells rfl hl hx hs) ht hts, ?_⟩
    rw [List.map_cons, hxs]

end SmallLisp

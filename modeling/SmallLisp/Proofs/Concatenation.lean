import SmallLisp.Proofs.Nodes
import SmallLisp.Proofs.Places
import SmallLisp.Proofs.Relocation

/-!
# Texts one below the other

Where a newline stands between two texts, no token, comment or lookahead of the first reaches into the
second. A lexeme at the end of the first text is read as it was at the end of the whole
(`Lexeme.read_append`), and so are the layout in front of it and a comment that the newline now ends
(`Layout.append`, `Layout.append_newline`). The calls on the second text are those on this text alone,
with their places moved (`Cursor.results_relocate`), and the reader goes on behind the expressions of
the first as if it began there. Main statement: `Program.parse_append_newline`.
-/

set_option autoImplicit false

namespace SmallLisp

/-! ## Reading with more behind -/

/-- A run that ends with the text is stopped by what is put behind, and any other is not changed. -/
theorem LongestRun.append {p : Char → Bool} {run rest tail : List Char} (h : LongestRun p run rest)
    (hp : ∀ c ∈ tail.head?, p c = false) : LongestRun p run (rest ++ tail) where
  within := h.within
  stops c hc := by
    cases rest with
    | nil => exact hp c hc
    | cons d rest => exact h.stops c hc

namespace Lexeme

section
variable {cs tail : List Char} (hs : Separates tail)
include hs

theorem ofText_append (hcs : cs ≠ []) : Radix.ofText (cs ++ tail) = Radix.ofText cs := by
  match cs, hcs with
  | [c], _ =>
    -- the mark of a radix would end in the first character of what separates
    cases tail with
    | nil => rfl
    | cons d tail =>
      have hd : d ≠ 'x' ∧ d ≠ 'b' := by
        constructor <;> rintro rfl <;> cases (hs _ rfl).1
      unfold Radix.ofText
      split <;> simp_all
  | c :: d :: cs, _ =>
    unfold Radix.ofText
    split <;> simp_all

theorem readNumber_append (negative : Bool) (hcs : cs ≠ []) :
    readNumber negative (cs ++ tail) = readNumber negative cs := by
  obtain ⟨radix, digits, rest, rfl, hr, hrun⟩ := exists_number cs
  have hr' := (ofText_append hs hcs).trans hr
  have hrun' := hrun.append fun c hc => hs.isDigit radix hc
  have hg : (rest ++ tail).head?.filter isGlued = rest.head?.filter isGlued := by
    cases rest with
    | nil => exact Option.filter_eq_none_iff.2 fun c hc => by simp [(hs c hc).2.1]
    | cons c rest => rfl
  simp only [List.append_assoc] at hr' ⊢
  rw [readNumber_eq negative hr hrun, readNumber_eq negative hr' hrun', hg]

theorem readWord_append (cs : List Char) : readWord (cs ++ tail) = readWord cs := by
  have hrun := LongestRun.of_text isWordChar cs
  have hword : (cs ++ tail).takeWhile isWordChar = cs.takeWhile isWordChar := by
    have h := (hrun.append fun c hc => (hs c hc).1).takeWhile_eq
    rwa [← List.append_assoc, List.takeWhile_append_dropWhile] at h
  simp only [readWord, hword]

theorem readPunct_append (p : Punct) (cs : List Char) : readPunct p (cs ++ tail) = readPunct p cs := by
  cases cs with
  | nil =>
    have hnil : Separates [] := by simp [Separates]
    exact (readPunct_of_separates hs p).trans (readPunct_of_separates hnil p).symm
  | cons c cs => rfl

/-- What is read as a lexeme is so with more behind that is kept apart. -/
theorem read_append {x : Lexeme} (hx : (read cs).outcome = .ok x) (hcs : cs ≠ []) :
    read (cs ++ tail) = read cs := by
  obtain ⟨c, cs, rfl⟩ := List.exists_cons_of_ne_nil hcs
  have hb := branch_read c cs
  generalize hr : read (c :: cs) = r at hb hx ⊢
  generalize c :: cs = text at hb ⊢
  cases hb with
  | number negative hc =>
    rw [List.append_assoc, List.cons_append, read_of_branch (.number negative hc),
      ← List.cons_append, readNumber_append hs negative (List.cons_ne_nil _ _)]
  | @string q cs hq =>
    rw [List.cons_append, read_of_branch (.string _ hq)]
    unfold readString at hx ⊢
    cases hc : readContent q cs with
    | none => rw [hc] at hx; cases hx
    | some found =>
      obtain ⟨body, rest, rfl, hb, hn⟩ := encodes_of_readContent cs hc
      rw [List.append_assoc, List.cons_append, readContent_of_encodes hq hb, ← hn]
  | @word c cs hc =>
    rw [List.cons_append, read_of_branch (.word _ hc), ← List.cons_append, readWord_append hs]
  | @punct c cs p hp hd =>
    have hd' : c = '-' → (cs ++ tail).head?.any SmallLisp.isDigit = false := by
      intro hc
      cases cs with
      | nil =>
        cases tail with
        | nil => rfl
        | cons d tail => exact hs.isDigit .decimal rfl
      | cons d cs => exact hd hc
    rw [List.cons_append, read_of_branch (.punct hp hd'), readPunct_append hs]
  | stray cs hd hq hw hp =>
    exact read_of_branch (.stray _ hd hq hw hp)

end

/-- A lexeme does not reach beyond the end of the text. -/
theorem width_le {cs : List Char} {x : Lexeme} (hx : (read cs).outcome = .ok x) :
    (read cs).width ≤ cs.length := by
  by_cases hcs : cs = []
  · subst hcs
    exact Nat.le_refl 0
  cases hr : read cs with
  | mk outcome width =>
    cases hr ▸ justified_read hcs with
    | error => rw [hr] at hx; cases hx
    | @ok w tail _ _ hw hwidth =>
      show width ≤ cs.length
      rw [hwidth, hw, List.length_append]
      exact Nat.le_add_right _ _

end Lexeme

/-- A newline separates, whatever stands behind it. -/
theorem separates_newline (text : List Char) : Lexeme.Separates ('\n' :: text) := by
  rintro _ ⟨rfl⟩
  decide

/-! ## Layout with more behind -/

namespace Layout

variable {skipped rest : List Char}

/-- What is passed over in front of something is passed over also when there is more behind. -/
theorem append (h : Layout skipped rest) (hrest : rest ≠ []) (tail : List Char) :
    Layout skipped (rest ++ tail) := by
  induction h with
  | nothing h =>
    refine .nothing ?_
    rwa [List.head?_append_of_ne_nil _ hrest]
  | blank hc _ ih => exact .blank hc (ih hrest)
  | @comment body skipped rest hbody _ ih =>
    refine .comment ⟨hbody.within, ?_⟩ (ih hrest)
    rw [← List.append_assoc, List.head?_append_of_ne_nil _ (by simp [hrest])]
    exact hbody.stops

/-- Layout up to the end of the text goes on behind a newline, which ends its last comment. -/
theorem append_newline (h : Layout skipped []) {skipped' : List Char} (h' : Layout skipped' rest) :
    Layout (skipped ++ '\n' :: skipped') rest := by
  generalize hend : ([] : List Char) = fin at h
  induction h with
  | nothing => exact .blank (by decide) h'
  | blank hc _ ih => exact .blank hc (ih hend)
  | @comment body skipped fin hbody _ ih =>
    subst hend
    rw [List.cons_append, List.append_assoc]
    refine .comment ?_ (ih rfl)
    have hends : ∀ c ∈ ('\n' :: (skipped' ++ rest)).head?, decide (c ≠ '\n') = false := by
      rintro _ ⟨rfl⟩
      decide
    simpa using hbody.append hends

end Layout

/-! ## Calls with more behind -/

namespace Cursor

/-- The cursor at the same place, with more behind. -/
def extend (c : Cursor) (tail : List Char) : Cursor := ⟨c.rest ++ tail, c.position⟩

/-- The cursor in front of the same text, at another place. -/
def relocate (f : Position → Position) (c : Cursor) : Cursor := ⟨c.rest, f c.position⟩

theorem advance_extend {c : Cursor} {width : Nat} (h : width ≤ c.rest.length) (tail : List Char) :
    (c.extend tail).advance width = (c.advance width).extend tail := by
  simp only [extend, advance, List.drop_append_of_le_length h, List.take_append_of_le_length h]

/-- A call that finds a token finds it also when something separate stands behind the text. -/
theorem next_extend {c after : Cursor} {t : Token} (h : c.next = (.ok t, after))
    (ht : t.isEof = false) {tail : List Char} (hs : Lexeme.Separates tail) :
    (c.extend tail).next = (.ok t, after.extend tail) := by
  obtain ⟨skipped, rest, hc, hl⟩ := c.exists_skipped
  have hrest : rest ≠ [] := by
    rintro rfl
    have hstep := step_next hc hl
    rw [h] at hstep
    cases hstep with
    | eof => cases ht
    | token hrest hx => exact hx.ne_nil (List.append_eq_nil_iff.1 hrest.symm).1
  have hc' : (c.extend tail).rest = skipped ++ (rest ++ tail) := by rw [extend, hc, List.append_assoc]
  rw [next, skipLayout_eq hc hl] at h
  rw [next, skipLayout_eq hc' (hl.append hrest tail)]
  simp only at h ⊢
  split at h
  · rename_i x hx
    cases h
    simp only [Lexeme.read_append hs hx hrest, hx]
    exact congrArg _ (advance_extend (c := ⟨rest, _⟩) (Lexeme.width_le hx) tail)
  · cases h

/-- A call that finds the end of the text goes on behind a newline as if it began there. -/
theorem next_extend_newline {c : Cursor} (h : isEnd c.next.1 = true) (text : List Char) :
    (c.extend ('\n' :: text)).next =
      (⟨text, (c.position.through c.rest).after '\n'⟩ : Cursor).next := by
  have hl := c.isEnd_next_iff.1 h
  obtain ⟨skipped, rest, htext, hl'⟩ := exists_layout text.length text (Nat.le_refl _)
  have hc : (c.extend ('\n' :: text)).rest = (c.rest ++ '\n' :: skipped) ++ rest := by
    rw [extend, htext, List.append_assoc, List.cons_append]
  rw [next, next, skipLayout_eq hc (hl.append_newline hl'), skipLayout_eq htext hl', extend,
    Position.through_append, Position.through_cons]

/-- Where the text ends does not change as it is read. -/
theorem through_next (c : Cursor) :
    c.next.2.position.through c.next.2.rest = c.position.through c.rest := by
  have hadvance (c : Cursor) (width : Nat) :
      (c.advance width).position.through (c.advance width).rest = c.position.through c.rest := by
    rw [advance, ← Position.through_append, List.take_append_drop]
  rw [next_snd, hadvance, skipLayout, hadvance]

/-- Behind the tokens of a text and a newline, the calls are those on the text that follows. -/
theorem Yields.results_extend_newline {c : Cursor} {ts : List Token} (h : Yields c ts)
    (text : List Char) : (c.extend ('\n' :: text)).results =
      ts.map .ok ++ (⟨text, (c.position.through c.rest).after '\n'⟩ : Cursor).results := by
  induction h with
  | nil h =>
    rw [results_cons, next_extend_newline h, ← results_cons]
    rfl
  | @cons c after t ts h ht _ ih =>
    have hend := through_next c
    have hother : isEnd (.ok t) = false := ht
    simp only [h] at hend
    rw [results_cons, next_extend h ht (separates_newline text)]
    simp only [hother, Bool.false_eq_true, if_false, ih, hend, List.map_cons, List.cons_append]

section
variable {f : Position → Position} (hf : ∀ pos c, f (pos.after c) = (f pos).after c)
include hf

theorem through_relocate (cs : List Char) (pos : Position) :
    f (pos.through cs) = (f pos).through cs := by
  induction cs generalizing pos with
  | nil => rfl
  | cons c cs ih => rw [Position.through_cons, ih, hf, Position.through_cons]

theorem advance_relocate (c : Cursor) (width : Nat) :
    (c.relocate f).advance width = (c.advance width).relocate f := by
  simp only [advance, relocate, through_relocate hf]

/-- What a call finds does not depend on where the text stands. -/
theorem next_relocate (c : Cursor) :
    (c.relocate f).next = (relocateFound f c.next.1, c.next.2.relocate f) := by
  have hskip : (c.relocate f).skipLayout = c.skipLayout.relocate f := advance_relocate hf c _
  rw [next, hskip, next]
  simp only [advance_relocate hf]
  rw [show (c.skipLayout.relocate f).rest = c.skipLayout.rest from rfl]
  split
  · rfl
  · rename_i fault _
    refine Prod.ext ?_ rfl
    cases fault <;> rfl

theorem results_relocate (c : Cursor) :
    (c.relocate f).results = c.results.map (relocateFound f) := by
  have hscan (n : Nat) (c : Cursor) : scan n (c.relocate f) = (scan n c).map (relocateFound f) := by
    induction n generalizing c with
    | zero => rfl
    | succ n ih =>
      have hend : isEnd (relocateFound f c.next.1) = isEnd c.next.1 := by
        cases c.next.1 <;> rfl
      rw [scan_succ, scan_succ, next_relocate hf]
      simp only [hend, ih]
      split <;> rfl
  exact hscan _ c

end

end Cursor

/-! ## The second text -/

/-- The place as it is counted when another text and a newline stand above. -/
def Position.below (above : List Char) (pos : Position) : Position where
  line := pos.line + 1 + above.count '\n'
  column := pos.column
  offset := pos.offset + above.length + 1

theorem Position.below_after (above : List Char) (pos : Position) (c : Char) :
    (pos.after c).below above = (pos.below above).after c := by
  by_cases hc : c = '\n'
  · simp only [after, below, if_pos hc, mk.injEq, true_and]
    omega
  · simp only [after, below, if_neg hc, mk.injEq, true_and]
    omega

theorem Position.below_start (above : List Char) :
    start.below above = (start.through above).after '\n' := by
  have h : start.through (above ++ ['\n']) = behind (above ++ ['\n']) := through_behind [] _
  rw [through_append] at h
  refine .trans ?_ h.symm
  simp only [below, start, behind, lineStart_newline, List.count_append, List.length_append,
    List.count_singleton_self, List.length_singleton, mk.injEq]
  omega

namespace Program

/-- Reading one text below another is reading it behind the expressions of the other. -/
theorem parse_append_newline_map_exprs {above : List Char} {p : Program} (h : parse above = .ok p)
    (text : List Char) : (parse (above ++ '\n' :: text)).map exprs =
      (relocateOutcome (Position.below above) ((parse text).map exprs)).map (p.exprs ++ ·) := by
  obtain ⟨ds, hyields, hp⟩ := exists_derivations_of_parse h
  have hstart : (Cursor.start text).relocate (Position.below above) =
      ⟨text, (Position.start.through above).after '\n'⟩ :=
    congrArg (Cursor.mk text) (Position.below_start above)
  have hall : (Cursor.start (above ++ '\n' :: text)).results = (Derivation.words ds).map .ok ++
      (Cursor.start text).results.map (Cursor.relocateFound (Position.below above)) := by
    rw [← Cursor.results_relocate (Position.below_after above), hstart]
    exact hyields.results_extend_newline text
  have heof : (Parser.start (above ++ '\n' :: text)).eof =
      (Parser.start text).eof.relocate (Position.below above) := by
    have hend := Cursor.through_relocate (Position.below_after above) text .start
    refine congrArg (Token.mk .eof) ?_
    rw [Position.through_append, Position.through_cons, ← Position.below_start, ← hend]
    rfl
  have hread := Parser.finishAll_relocate (Position.below above) (Parser.start text).eof
    (Cursor.start text).results [] none
  rw [parse_map_exprs, parse_map_exprs, hall, heof, Parser.finishAll_words_append, ← hread, hp]
  have hbefore := Parser.finishAll_before ((Parser.start text).eof.relocate (Position.below above))
    (Derivation.exprs ds).reverse
    ((Cursor.start text).results.map (Cursor.relocateFound (Position.below above))) [] none
  simpa using hbefore

/-- **Texts one below the other are read one after the other.** Below a text that is a program, another
text comes to what it comes to by itself, with the places counted from the whole: what is read are the
expressions above and behind them its own, and a fault in its words or in its grammar is the same
fault. -/
theorem parse_append_newline {above : List Char} {p : Program} (h : parse above = .ok p)
    (text : List Char) :
    (∀ q, parse text = .ok q → ∃ r, parse (above ++ '\n' :: text) = .ok r ∧
      r.exprs = p.exprs ++ q.exprs.map (·.relocate (Position.below above))) ∧
    (∀ e, parse text = .error (.lexical e) → parse (above ++ '\n' :: text) =
      .error (.lexical ⟨e.fault, e.position.below above⟩)) ∧
    (∀ e, parse text = .error (.grammar e) → parse (above ++ '\n' :: text) =
      .error (.grammar ⟨e.expected, ⟨e.found.lexeme, e.found.position.below above⟩, e.note⟩)) := by
  have hread := parse_append_newline_map_exprs h text
  refine ⟨fun q hq => ?_, fun e he => ?_, fun e he => ?_⟩
  · rw [hq] at hread
    cases hr : parse (above ++ '\n' :: text) with
    | error e => rw [hr] at hread; cases hread
    | ok r =>
      rw [hr] at hread
      exact ⟨r, rfl, Except.ok.inj hread⟩
  · rw [he] at hread
    cases hr : parse (above ++ '\n' :: text) with
    | error e => rw [hr] at hread; exact congrArg _ (Except.error.inj hread)
    | ok r => rw [hr] at hread; cases hread
  · rw [he] at hread
    cases hr : parse (above ++ '\n' :: text) with
    | error e => rw [hr] at hread; exact congrArg _ (Except.error.inj hread)
    | ok r => rw [hr] at hread; cases hread

/-- A comment that ends with its text hides nothing of the text below, whose fault is in the second
line of the whole. -/
theorem parse_append_newline_comment :
    parse "(f 1) ; (".toList =
        .ok ⟨.start, [.call (.named "f") [.literal (.int 1) ⟨1, 4, 3⟩] ⟨1, 2, 1⟩]⟩ ∧
      parse " )".toList =
        .error (.grammar ⟨"expression", ⟨.punct .closeParen, ⟨1, 2, 1⟩⟩, none⟩) ∧
      parse ("(f 1) ; (".toList ++ '\n' :: " )".toList) =
        .error (.grammar ⟨"expression", ⟨.punct .closeParen, ⟨2, 2, 11⟩⟩, none⟩) := by
  have h : parse "(f 1) ; (".toList =
      .ok ⟨.start, [.call (.named "f") [.literal (.int 1) ⟨1, 4, 3⟩] ⟨1, 2, 1⟩]⟩ := rfl
  have htext : parse " )".toList =
      .error (.grammar ⟨"expression", ⟨.punct .closeParen, ⟨1, 2, 1⟩⟩, none⟩) := rfl
  exact ⟨h, htext, (parse_append_newline h _).2.2 _ htext⟩

end Program

end SmallLisp

import SmallLisp.Proofs.Lexicon

/-!
# Longest match

`Lexeme.read` takes the longest lexeme off the head of a text. What it takes is a lexeme
(`Lexeme.justified_read`), nothing longer spells one (`Lexeme.length_le_of_spells`), and it fails on
the faulty texts only (`Lexeme.read_error_iff`).

The first character, with a second one behind a minus sign, tells which reader reads a text
(`Lexeme.Branch`), so each fact is proved reader by reader.
-/

set_option autoImplicit false

namespace SmallLisp

/-! ## The readers of each kind -/

namespace IsQuote

variable {q : Char}

theorem ne_backslash (h : IsQuote q) : '\\' ≠ q := by
  rcases h with rfl | rfl <;> decide

end IsQuote

theorem readContent_of_encodes {q : Char} {body content : List Char} (hq : IsQuote q)
    (h : Encodes q body content) (tail : List Char) :
    readContent q (body ++ q :: tail) = some (content, body.length + 1) := by
  induction h with
  | nil => unfold readContent; simp
  | plain hq hb _ ih => rw [List.cons_append]; unfold readContent; simp [hq, hb, ih]
  | escaped c _ ih => simp [readContent, hq.ne_backslash, ih]

theorem encodes_of_readContent {q : Char} (cs : List Char) :
    ∀ {content : List Char} {n : Nat}, readContent q cs = some (content, n) →
      ∃ body tail, cs = body ++ q :: tail ∧ Encodes q body content ∧ n = body.length + 1 := by
  fun_induction readContent q cs with
  | case1 => intro _ _ h; cases h
  | case2 rest =>
    intro _ _ h
    cases h
    exact ⟨[], rest, rfl, .nil, rfl⟩
  | case3 => intro _ _ h; cases h
  | case4 escaped rest hq ih =>
    intro _ _ h
    obtain ⟨⟨content, n⟩, hr, he⟩ := Option.map_eq_some_iff.1 h
    cases he
    obtain ⟨body, tail, rfl, hb, rfl⟩ := ih hr
    exact ⟨'\\' :: escaped :: body, tail, rfl, .escaped escaped hb, rfl⟩
  | case5 c rest hq hb ih =>
    intro _ _ h
    obtain ⟨⟨content, n⟩, hr, he⟩ := Option.map_eq_some_iff.1 h
    cases he
    obtain ⟨body, tail, rfl, hb', rfl⟩ := ih hr
    exact ⟨c :: body, tail, rfl, .plain hq hb hb', rfl⟩

namespace Radix

theorem mark_append_drop (cs : List Char) :
    (ofText cs).mark ++ cs.drop (ofText cs).mark.length = cs := by
  unfold ofText
  split <;> rfl

theorem mark_eq_nil_iff {r : Radix} : r.mark = [] ↔ r = decimal := by
  cases r <;> simp [mark]

theorem ofText_mark_append {r : Radix} (h : r ≠ decimal) (cs : List Char) :
    ofText (r.mark ++ cs) = r := by
  cases r with
  | decimal => exact absurd rfl h
  | _ => rfl

end Radix

namespace Lexeme

/-- Every text is the mark of a radix, the digits of that radix as far as they go, and a tail. -/
theorem exists_number (cs : List Char) : ∃ (radix : Radix) (digits tail : List Char),
    cs = radix.mark ++ (digits ++ tail) ∧ Radix.ofText cs = radix ∧
      LongestRun radix.isDigit digits tail := by
  refine ⟨Radix.ofText cs, _, _, ?_, rfl, .of_text _ (cs.drop (Radix.ofText cs).mark.length)⟩
  rw [List.takeWhile_append_dropWhile, Radix.mark_append_drop]

section
variable {radix : Radix} {digits tail : List Char} (negative : Bool)

theorem readNumber_eq (hr : Radix.ofText (radix.mark ++ (digits ++ tail)) = radix)
    (h : LongestRun radix.isDigit digits tail) :
    readNumber negative (radix.mark ++ (digits ++ tail)) =
      let width := (minusSign negative ++ radix.mark ++ digits).length
      match tail.head?.filter isGlued with
      | some c => ⟨.error (.glued c), width⟩
      | none =>
        if digits = [] then ⟨.error (.noDigits radix), width⟩
        else ⟨.ok (.int ((if negative then -1 else 1) * radix.value digits)), width⟩ := by
  have hwidth : (if negative then 1 else 0) + radix.mark.length + digits.length =
      (minusSign negative ++ radix.mark ++ digits).length := by
    cases negative <;> simp [minusSign]
    omega
  have hsign (n : Int) : (if negative then -n else n) = (if negative then -1 else 1) * n := by
    cases negative <;> simp
  cases hg : tail.head?.filter isGlued with
  | some c =>
    simp only [readNumber, hr, List.drop_left, h.takeWhile_eq, h.dropWhile_eq, hg, hwidth]
  | none =>
    simp only [readNumber, hr, List.drop_left, h.takeWhile_eq, h.dropWhile_eq, List.isEmpty_iff,
      hg, hwidth, hsign (radix.value digits)]

end

/-! ## Which reader reads -/

/-- What reads a text that begins with some character, and what it gives. -/
inductive Branch : List Char → Reading → Prop
  | number (negative : Bool) {c : Char} {cs : List Char} (hc : isDigit c = true) :
      Branch (minusSign negative ++ c :: cs) (readNumber negative (c :: cs))
  | string {q : Char} (cs : List Char) (hq : IsQuote q) : Branch (q :: cs) (readString q cs)
  | word {c : Char} (cs : List Char) (hc : isWordStart c = true) :
      Branch (c :: cs) (readWord (c :: cs))
  | punct {c : Char} {cs : List Char} {p : Punct} (hp : Punct.ofChar? c = some p)
      (hd : c = '-' → cs.head?.any isDigit = false) : Branch (c :: cs) (readPunct p cs)
  | stray {c : Char} (cs : List Char) (hd : isDigit c = false) (hq : ¬ IsQuote c)
      (hw : isWordStart c = false) (hp : Punct.ofChar? c = none) :
      Branch (c :: cs) ⟨.error (.stray c), 1⟩

theorem branch_read (c : Char) (cs : List Char) : Branch (c :: cs) (read (c :: cs)) := by
  rw [read]
  split
  · rename_i h
    simp only [Bool.and_eq_true, decide_eq_true_eq] at h
    obtain ⟨rfl, h⟩ := h
    cases cs with
    | nil => cases h
    | cons d cs => exact .number true h
  rename_i hneg
  split
  · rename_i hq
    exact .string cs (by simpa [IsQuote] using hq)
  rename_i hq
  split
  · exact .number false ‹_›
  rename_i hd
  split
  · exact .word cs ‹_›
  rename_i hw
  split
  · exact .punct ‹_› (by simpa using hneg)
  · exact .stray cs (by simpa using hd) (by simpa [IsQuote] using hq) (by simpa using hw) ‹_›

/-- The first characters of the kinds are different. -/
theorem head_of_isDigit {c : Char} (h : isDigit c = true) :
    c ≠ '-' ∧ ¬ IsQuote c ∧ isWordStart c = false := by
  have hall : ∀ d ∈ Radix.decimal.digits,
      d.1 ≠ '-' ∧ ¬ (d.1 = '\'' ∨ d.1 = '"') ∧ isWordStart d.1 = false := by decide
  obtain ⟨v, hv⟩ := Radix.exists_digit h
  exact hall (c, v) hv

theorem read_of_branch {cs : List Char} {r : Reading} (h : Branch cs r) : read cs = r := by
  cases h with
  | number negative hc =>
    cases negative with
    | true => simp [minusSign, read, hc]
    | false =>
      obtain ⟨hn, hq, -⟩ := head_of_isDigit hc
      unfold IsQuote at hq
      simp [minusSign, read, hc, hn, hq]
  | string cs hq => rcases hq with rfl | rfl <;> simp [read]
  | @word c cs hc =>
    have hd : isDigit c = false := by
      by_contra hd
      rw [(head_of_isDigit (Bool.not_eq_false _ ▸ hd)).2.2] at hc
      cases hc
    have hn : c ≠ '-' := by rintro rfl; revert hc; decide
    have hq : ¬ (c = '\'' ∨ c = '"') := by rintro (rfl | rfl) <;> revert hc <;> decide
    simp [read, hn, hq, hd, hc]
  | @punct c cs p hp hd =>
    unfold Punct.ofChar? at hp
    split at hp <;> cases hp
    case h_4 => simp [read, hd rfl]; rfl
    all_goals rfl
  | @stray c cs hd hq hw hp =>
    have hn : c ≠ '-' := by rintro rfl; cases hp
    unfold IsQuote at hq
    simp [read, hn, hq, hd, hw, hp]

/-! ## What is read is a lexeme -/

theorem ofWord_eq_keyword (k : Keyword) : ofWord k.spelling.toList = .keyword k := by
  cases k <;> rfl

theorem ofWord_eq_ident {w : List Char} (h : ∀ k : Keyword, w ≠ k.spelling.toList) :
    ofWord w = .ident (String.ofList w) := by
  have : Keyword.ofSpelling? (String.ofList w) = none := by
    refine List.find?_eq_none.2 fun k _ hk => h k ?_
    rw [eq_of_beq hk, String.toList_ofList]
  rw [ofWord, this]

theorem spells_ofWord {w : List Char} (hw : IsWord w) (hlen : w.length ≤ maxIdentLength) :
    Spells w (ofWord w) := by
  by_cases hk : ∃ k : Keyword, w = k.spelling.toList
  · obtain ⟨k, rfl⟩ := hk
    rw [ofWord_eq_keyword]
    exact .keyword k
  · have hk : ∀ k : Keyword, w ≠ k.spelling.toList := fun k h => hk ⟨k, h⟩
    rw [ofWord_eq_ident hk]
    exact .ident hw hlen hk

theorem isWord_takeWhile {c : Char} (hc : isWordStart c = true) (cs : List Char) :
    IsWord ((c :: cs).takeWhile isWordChar) := by
  rw [List.takeWhile_cons_of_pos (isWordChar_of_isWordStart hc)]
  exact .intro hc fun d hd => List.mem_takeWhile_imp hd

theorem spells_of_ofChar? {c : Char} {p : Punct} (h : Punct.ofChar? c = some p) :
    Spells [c] (.punct p) := by
  have : p.spelling.toList = [c] := by
    unfold Punct.ofChar? at h
    split at h <;> cases h <;> rfl
  exact this ▸ .punct p

theorem spells_withEquals? {c : Char} {p q : Punct} (h : Punct.ofChar? c = some p)
    (hq : p.withEquals? = some q) : Spells [c, '='] (.punct q) := by
  have : q.spelling.toList = [c, '='] := by
    unfold Punct.ofChar? at h
    split at h <;> cases h <;> cases hq <;> rfl
  exact this ▸ .punct q

/-- A reading covers a lexeme at the head of a text, or says that there is none. It covers something
in any case. -/
inductive Justified (cs : List Char) : Reading → Prop
  | ok {w : List Char} (tail : List Char) {x : Lexeme} {width : Nat} (hcs : cs = w ++ tail)
      (hwidth : width = w.length) (h : Spells w x) : Justified cs ⟨.ok x, width⟩
  | error {fault : LexicalFault} {width : Nat} (hwidth : 0 < width) (h : Faulty cs) :
      Justified cs ⟨.error fault, width⟩

theorem justified_number (negative : Bool) {c : Char} {cs : List Char} (hc : isDigit c = true) :
    Justified (minusSign negative ++ c :: cs) (readNumber negative (c :: cs)) := by
  obtain ⟨radix, digits, tail, hcs, hr, hrun⟩ := exists_number (c :: cs)
  rw [hcs] at hr
  have hmark : digits = [] → radix ≠ .decimal := by
    rintro rfl rfl
    obtain rfl : c :: cs = tail := hcs
    cases (hrun.stops c rfl).symm.trans hc
  have hwidth : 0 < (minusSign negative ++ radix.mark ++ digits).length := by
    rw [List.length_pos_iff]
    simp only [ne_eq, List.append_eq_nil_iff, not_and]
    exact fun h hd => hmark hd (Radix.mark_eq_nil_iff.1 h.2)
  have hfaulty : digits = [] →
      Faulty (minusSign negative ++ (radix.mark ++ (digits ++ tail))) := by
    rintro rfl
    exact .noDigits negative (hmark rfl) hrun.stops
  rw [hcs, readNumber_eq negative hr hrun]
  cases hg : tail.head?.filter isGlued with
  | some d =>
    obtain ⟨htail, hd⟩ := Option.filter_eq_some_iff.1 hg
    obtain ⟨tail, rfl⟩ := List.head?_eq_some_iff.1 htail
    by_cases hne : digits = []
    · exact .error hwidth (hfaulty hne)
    · exact .error hwidth (.glued negative radix hr hne hrun hd)
  | none =>
    by_cases hne : digits = []
    · simp only [if_pos hne]
      exact .error hwidth (hfaulty hne)
    · simp only [if_neg hne]
      obtain ⟨ds, hds, rfl⟩ := Radix.exists_digits digits hrun.within
      refine .ok tail (by simp) rfl ?_
      rw [Radix.value_eq_ofDigits hds]
      exact .int negative radix (by rintro rfl; exact hne rfl) hds

theorem justified_string {q : Char} (cs : List Char) (hq : IsQuote q) :
    Justified (q :: cs) (readString q cs) := by
  unfold readString
  cases hc : readContent q cs with
  | none =>
    refine .error (Nat.succ_pos _) (.unclosed hq ?_)
    rintro body content tail hb rfl
    rw [readContent_of_encodes hq hb] at hc
    cases hc
  | some r =>
    obtain ⟨content, n⟩ := r
    obtain ⟨body, tail, rfl, hb, rfl⟩ := encodes_of_readContent cs hc
    exact .ok tail (by simp) (by simp) (.string hq hb)

theorem justified_word {c : Char} (cs : List Char) (hc : isWordStart c = true) :
    Justified (c :: cs) (readWord (c :: cs)) := by
  have hw := isWord_takeWhile hc cs
  simp only [readWord]
  split
  · rename_i hlen
    exact .ok _ List.takeWhile_append_dropWhile.symm rfl (spells_ofWord hw hlen)
  · rename_i hlen
    have h := Faulty.overlong hw (.of_text _ (c :: cs)) (Nat.lt_of_not_le hlen)
    rw [List.takeWhile_append_dropWhile] at h
    exact .error (by decide) h

theorem justified_punct {c : Char} {p : Punct} (cs : List Char) (hp : Punct.ofChar? c = some p) :
    Justified (c :: cs) (readPunct p cs) := by
  unfold readPunct
  split
  · rename_i q hq hcs
    obtain ⟨tail, rfl⟩ := List.head?_eq_some_iff.1 hcs
    exact .ok tail rfl rfl (spells_withEquals? hp hq)
  · exact .ok cs rfl rfl (spells_of_ofChar? hp)

/-- The character that a lexeme begins with tells which reader reads it. -/
theorem head_of_spells {c : Char} {w : List Char} {x : Lexeme} (h : Spells (c :: w) x) :
    isDigit c = true ∨ IsQuote c ∨ isWordStart c = true ∨ (Punct.ofChar? c).isSome = true := by
  generalize hcs : c :: w = cs at h
  cases h with
  | punct p =>
    obtain ⟨d, ds, q, hp, hd⟩ := p.spelling_eq_cons
    cases hcs.trans hp
    exact .inr (.inr (.inr (Option.isSome_of_mem hd)))
  | keyword k =>
    cases hcs ▸ k.isWord_spelling with
    | intro hc => exact .inr (.inr (.inl hc))
  | int negative radix hne hds =>
    cases negative with
    | true => cases hcs; simp [Punct.ofChar?]
    | false =>
      cases radix with
      | decimal =>
        obtain ⟨d, ds, rfl⟩ := List.exists_cons_of_ne_nil hne
        cases hcs
        exact .inl (Radix.isDigit_of_mem (hds d List.mem_cons_self))
      | _ => cases hcs; exact .inl rfl
  | ident hw =>
    cases hcs ▸ hw with
    | intro hc => exact .inr (.inr (.inl hc))
  | string hq => cases hcs; exact .inr (.inl hq)

theorem justified_stray {c : Char} (cs : List Char) (hd : isDigit c = false) (hq : ¬ IsQuote c)
    (hw : isWordStart c = false) (hp : Punct.ofChar? c = none) :
    Justified (c :: cs) ⟨.error (.stray c), 1⟩ := by
  refine .error Nat.one_pos (.stray cs fun w x h => ?_)
  have := head_of_spells h
  simp [hd, hq, hw, hp] at this

/-- **What is read is a lexeme**, and a text that none is read from is faulty. -/
theorem justified_read {cs : List Char} (h : cs ≠ []) : Justified cs (read cs) := by
  obtain ⟨c, cs, rfl⟩ := List.exists_cons_of_ne_nil h
  have hb := branch_read c cs
  generalize c :: cs = text at hb ⊢
  generalize read text = r at hb ⊢
  cases hb with
  | number negative hc => exact justified_number negative hc
  | string cs hq => exact justified_string cs hq
  | word cs hc => exact justified_word cs hc
  | punct hp _ => exact justified_punct _ hp
  | stray cs hd hq hw hp => exact justified_stray cs hd hq hw hp

theorem width_pos {cs : List Char} (h : cs ≠ []) : 0 < (read cs).width := by
  cases hr : read cs with
  | mk outcome width =>
    cases hr ▸ justified_read h with
    | error hwidth => exact hwidth
    | ok _ _ hwidth hx => exact hwidth ▸ List.length_pos_iff.2 hx.ne_nil

/-! ## No lexeme is longer -/

section
variable {radix : Radix} {digits : List Char} (negative : Bool) (tail : List Char)

/-- A mark or digits begin a number. -/
theorem read_number (hne : radix.mark ++ digits ≠ []) (hd : ∀ c ∈ digits, radix.isDigit c = true) :
    read (minusSign negative ++ (radix.mark ++ (digits ++ tail))) =
      readNumber negative (radix.mark ++ (digits ++ tail)) := by
  obtain ⟨c, cs, hcs, hc⟩ :
      ∃ c cs, radix.mark ++ (digits ++ tail) = c :: cs ∧ isDigit c = true := by
    cases radix with
    | decimal =>
      obtain ⟨c, cs, rfl⟩ := List.exists_cons_of_ne_nil hne
      exact ⟨c, cs ++ tail, rfl, hd c List.mem_cons_self⟩
    | _ => exact ⟨'0', _, rfl, rfl⟩
  rw [hcs]
  exact read_of_branch (.number negative hc)

/-- A number is at least as long as any numeral at the head of its text. -/
theorem length_le_readNumber (hd : ∀ c ∈ digits, radix.isDigit c = true) :
    (minusSign negative ++ radix.mark ++ digits).length ≤
      (readNumber negative (radix.mark ++ (digits ++ tail))).width := by
  obtain ⟨radix', digits', tail', hcs, hr, hrun⟩ :=
    exists_number (radix.mark ++ (digits ++ tail))
  have hwidth : (readNumber negative (radix.mark ++ (digits ++ tail))).width =
      (minusSign negative ++ radix'.mark ++ digits').length := by
    rw [hcs] at hr ⊢
    rw [readNumber_eq negative hr hrun]
    split
    · rfl
    · split <;> rfl
  suffices (radix.mark ++ digits).length ≤ (radix'.mark ++ digits').length by
    simpa [hwidth, Nat.add_assoc] using this
  by_cases hrr : radix = radix'
  · subst hrr
    have hdigits : digits' = digits ++ tail.takeWhile radix.isDigit := by
      rw [← List.takeWhile_append_of_pos hd, List.append_cancel_left hcs, hrun.takeWhile_eq]
    rw [hdigits]
    simp
  · obtain rfl : radix = .decimal := by
      by_contra hne
      exact hrr ((Radix.ofText_mark_append hne _).symm.trans hr)
    -- these are decimal digits at the head of a mark, whose second character is no digit
    have hlen : digits.length ≤ 1 := by
      match digits, hd with
      | [], _ => exact Nat.zero_le 1
      | [_], _ => exact Nat.le_refl 1
      | _ :: d :: _, hd =>
        have hx : isDigit d = true := hd d (by simp)
        cases radix' with
        | decimal => exact absurd rfl hrr
        | _ =>
          injection hcs with _ hcs
          injection hcs with hcs
          subst hcs
          cases hx
    cases radix' with
    | decimal => exact absurd rfl hrr
    | _ => simp only [Radix.mark, List.nil_append, List.length_append, List.length_cons]; omega

end

theorem read_word {w : List Char} (hw : IsWord w) (tail : List Char) :
    read (w ++ tail) = readWord (w ++ tail) := by
  cases hw with
  | intro hc => exact read_of_branch (.word _ hc)

theorem length_le_of_isWord {w : List Char} (hw : IsWord w) (hlen : w.length ≤ maxIdentLength)
    (tail : List Char) : w.length ≤ (read (w ++ tail)).width := by
  have htake : (w ++ tail).takeWhile isWordChar = w ++ tail.takeWhile isWordChar :=
    List.takeWhile_append_of_pos hw.all
  rw [read_word hw, readWord, htake]
  split
  · simp
  · exact hlen

theorem read_string {q : Char} {body content : List Char} (hq : IsQuote q)
    (h : Encodes q body content) (tail : List Char) :
    read (q :: (body ++ [q]) ++ tail) =
      ⟨.ok (.string (String.ofList content)), (q :: (body ++ [q])).length⟩ := by
  have hcs : q :: (body ++ [q]) ++ tail = q :: (body ++ q :: tail) := by simp
  rw [hcs, read_of_branch (.string _ hq), readString, readContent_of_encodes hq h]
  simp

/-- **The longest lexeme is read**: whatever spells a lexeme at the head of a text is no longer than
what is read there. -/
theorem length_le_of_spells {w : List Char} {x : Lexeme} (h : Spells w x) (tail : List Char) :
    w.length ≤ (read (w ++ tail)).width := by
  cases h with
  | punct p =>
    have hpos : 0 < (read (p.spelling.toList ++ tail)).width :=
      width_pos (by simp [(Spells.punct p).ne_nil])
    cases p with
    | equal | notEqual | lessEqual | greaterEqual => exact Nat.le_refl 2
    | _ => exact hpos
  | keyword k => exact length_le_of_isWord k.isWord_spelling k.length_spelling tail
  | @int negative radix ds hne hds =>
    have hd : ∀ c ∈ ds.map (·.1), radix.isDigit c = true :=
      List.forall_mem_map.2 fun d hd => Radix.isDigit_of_mem (hds d hd)
    simp only [List.append_assoc, read_number negative tail (by simp [hne]) hd]
    simpa using length_le_readNumber negative tail hd
  | ident hw hlen => exact length_le_of_isWord hw hlen tail
  | string hq hb => rw [read_string hq hb]

/-! ## What is faulty -/

/-- Nothing is read from a faulty text. -/
theorem read_ne_ok_of_faulty {cs : List Char} (h : Faulty cs) (x : Lexeme) :
    (read cs).outcome ≠ .ok x := by
  cases h with
  | @stray c cs h =>
    intro hx
    cases hr : read (c :: cs) with
    | mk outcome width =>
      cases hr ▸ justified_read (List.cons_ne_nil c cs) with
      | error => rw [hr] at hx; cases hx
      | @ok w _ x _ hcs _ hw =>
        obtain ⟨d, ds, rfl⟩ := List.exists_cons_of_ne_nil hw.ne_nil
        obtain ⟨rfl, -⟩ := List.cons.inj hcs
        exact h ds x hw
  | @glued negative radix digits tail c hr hne hrun hc =>
    have hg : (c :: tail).head?.filter isGlued = some c := Option.filter_eq_some_iff.2 ⟨rfl, hc⟩
    rw [read_number negative _ (by simp [hne]) hrun.within, readNumber_eq negative hr hrun]
    simp only [hg, ne_eq, reduceCtorEq, not_false_eq_true]
  | @noDigits negative radix tail hm hd =>
    have hrun : LongestRun radix.isDigit [] tail := ⟨by simp, hd⟩
    have hmark := mt Radix.mark_eq_nil_iff.1 hm
    rw [← List.nil_append tail, read_number negative _ (by simp [hmark]) hrun.within,
      readNumber_eq negative (Radix.ofText_mark_append hm _) hrun]
    split <;> simp
  | @unclosed q cs hq h =>
    rw [read_of_branch (.string cs hq), readString]
    cases hc : readContent q cs with
    | none => simp
    | some r =>
      obtain ⟨body, tail, hcs, hb, -⟩ := encodes_of_readContent cs hc
      exact absurd hcs (h _ _ _ hb)
  | @overlong w tail hw hrun hlen =>
    rw [read_word hw, readWord, hrun.takeWhile_eq, if_neg (Nat.not_le.2 hlen)]
    simp

/-- **Reading fails on the faulty texts**, and on no others. -/
theorem read_error_iff {cs : List Char} :
    (∃ fault, (read cs).outcome = .error fault) ↔ Faulty cs := by
  constructor
  · rintro ⟨fault, hf⟩
    have hne : cs ≠ [] := by rintro rfl; cases hf
    cases hr : read cs with
    | mk outcome width =>
      cases hr ▸ justified_read hne with
      | error _ h => exact h
      | ok => rw [hr] at hf; cases hf
  · intro h
    cases hr : (read cs).outcome with
    | error fault => exact ⟨fault, rfl⟩
    | ok x => exact absurd hr (read_ne_ok_of_faulty h x)

/-- A letter behind the digits, although `0x1` by itself is a number. -/
example : Faulty "0x1g".toList := read_error_iff.1 ⟨.glued 'g', rfl⟩

/-! ## Lexemes that are kept apart -/

/-- What follows a lexeme neither continues it nor clings to it: no letter, digit, underscore or equals
sign. -/
def Separates (tail : List Char) : Prop :=
  ∀ c ∈ tail.head?, isWordChar c = false ∧ isGlued c = false ∧ c ≠ '='

section
variable {tail : List Char}

theorem isWordChar_of_isDigit {r : Radix} {c : Char} (h : r.isDigit c = true) :
    isWordChar c = true := by
  have hall : ∀ d ∈ r.digits, isWordChar d.1 = true := by cases r <;> decide
  obtain ⟨v, hv⟩ := Radix.exists_digit h
  exact hall (c, v) hv

theorem Separates.isDigit (h : Separates tail) (r : Radix) {c : Char} (hc : c ∈ tail.head?) :
    r.isDigit c = false := by
  by_contra hd
  cases (h c hc).1.symm.trans (isWordChar_of_isDigit (Bool.not_eq_false _ ▸ hd))

/-- A decimal number that is kept apart is not taken for the mark of another radix. -/
theorem ofText_of_separates (h : Separates tail) {r : Radix} {digits : List Char}
    (hne : digits ≠ []) (hd : ∀ c ∈ digits, r.isDigit c = true) :
    Radix.ofText (r.mark ++ (digits ++ tail)) = r := by
  by_cases hr : r = .decimal
  · subst hr
    -- behind the first digit there is another digit or the tail, and neither begins with `x` or `b`
    have hsecond : ∀ x, x = 'x' ∨ x = 'b' → ∀ c cs, digits ++ tail ≠ c :: x :: cs := by
      intro x hx c cs hcs
      have hmark : isWordChar x = true ∧ isDigit x = false := by obtain rfl | rfl := hx <;> decide
      match digits, hd with
      | [], _ => exact hne rfl
      | [_], _ =>
        obtain ⟨-, rfl⟩ := List.cons.inj hcs
        cases hmark.1.symm.trans (h x rfl).1
      | _ :: d :: _, hd =>
        obtain ⟨-, hcs⟩ := List.cons.inj hcs
        obtain ⟨rfl, -⟩ := List.cons.inj hcs
        cases hmark.2.symm.trans (hd d (by simp))
    show Radix.ofText (digits ++ tail) = .decimal
    unfold Radix.ofText
    split
    · exact absurd ‹_› (hsecond 'x' (.inl rfl) _ _)
    · exact absurd ‹_› (hsecond 'b' (.inr rfl) _ _)
    · rfl
  · exact Radix.ofText_mark_append hr _

theorem readPunct_of_separates (h : Separates tail) (p : Punct) :
    readPunct p tail = ⟨.ok (.punct p), 1⟩ := by
  unfold readPunct
  split
  · exact absurd rfl (h '=' ‹_›).2.2
  · rfl

/-- A lexeme that is kept apart from what follows is read as it is. -/
theorem read_of_spells {w : List Char} {x : Lexeme} (h : Spells w x) (hs : Separates tail) :
    read (w ++ tail) = ⟨.ok x, w.length⟩ := by
  have hword (hw : IsWord w) (hlen : w.length ≤ maxIdentLength) :
      read (w ++ tail) = ⟨.ok (ofWord w), w.length⟩ := by
    have hrun : LongestRun isWordChar w tail := ⟨hw.all, fun c hc => (hs c hc).1⟩
    rw [read_word hw, readWord, hrun.takeWhile_eq, if_pos hlen]
  cases h with
  | punct p =>
    have hd : ∀ c, c = '-' → tail.head?.any SmallLisp.isDigit = false := by
      rintro - -
      cases tail with
      | nil => rfl
      | cons c tail => exact hs.isDigit .decimal rfl
    cases p with
    | equal | notEqual | lessEqual | greaterEqual => rfl
    | _ => exact (read_of_branch (.punct rfl (hd _))).trans (readPunct_of_separates hs _)
  | keyword k =>
    rw [hword k.isWord_spelling k.length_spelling, ofWord_eq_keyword]
  | @int negative radix ds hne hds =>
    have hd : ∀ c ∈ ds.map (·.1), radix.isDigit c = true :=
      List.forall_mem_map.2 fun d hd => Radix.isDigit_of_mem (hds d hd)
    have hne : ds.map (·.1) ≠ [] := by simpa using hne
    have hrun : LongestRun radix.isDigit (ds.map (·.1)) tail := ⟨hd, fun c hc => hs.isDigit _ hc⟩
    have hg : tail.head?.filter isGlued = none :=
      Option.filter_eq_none_iff.2 fun c hc => by simp [(hs c hc).2.1]
    simp only [List.append_assoc]
    rw [read_number negative tail (by simp [hne]) hd,
      readNumber_eq negative (ofText_of_separates hs hne hd) hrun]
    simp only [hg, if_neg hne, Radix.value_eq_ofDigits hds, List.append_assoc]
  | ident hw hlen hk => rw [hword hw hlen, ofWord_eq_ident hk]
  | string hq hb => exact read_string hq hb tail

end

end Lexeme

end SmallLisp

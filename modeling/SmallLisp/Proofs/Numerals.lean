import SmallLisp.Evaluation
import SmallLisp.Proofs.Printing

/-!
# The integer at the head of a text

A text is some blanks, a sign or none, some decimal digits and a rest (`Text.Parts`), and the parts are
runs if none of them could go on (`Text.Runs`). Every text is taken apart into runs. As soon as a digit
is found behind blanks and at most one sign, there is no choice but to take fewer of the digits
(`Text.Runs.of_parts`), so that what is denoted does not depend on how the parts are searched for.
Main statement: `Native.parseint_denotes`.
-/

set_option autoImplicit false

namespace SmallLisp

/-- What may stand in front of the digits of a numeral. -/
inductive Sign
  | absent | plus | minus

namespace Sign

def text : Sign → Text
  | absent => []
  | plus => [CodePoint.ofChar '+']
  | minus => [CodePoint.ofChar '-']

/-- The integer with this sign and this absolute value. -/
def apply : Sign → Nat → Int
  | minus, n => -n
  | _, n => n

/-- If no sign is taken, none stands there. -/
def Stops (sign : Sign) (rest : Text) : Prop :=
  sign = absent → ∀ c ∈ rest.head?, c ≠ CodePoint.ofChar '+' ∧ c ≠ CodePoint.ofChar '-'

theorem eq_of_text_append {sign sign' : Sign} {rest rest' : Text}
    (h : sign.text ++ rest = sign'.text ++ rest') (hs : sign.Stops rest)
    (hs' : sign'.Stops rest') : sign = sign' := by
  cases sign with
  | absent =>
    obtain rfl : rest = sign'.text ++ rest' := h
    cases sign' with
    | absent => rfl
    | plus => exact absurd rfl (hs rfl _ rfl).1
    | minus => exact absurd rfl (hs rfl _ rfl).2
  | plus =>
    cases sign' with
    | absent =>
      obtain rfl : _ = rest' := h
      exact absurd rfl (hs' rfl _ rfl).1
    | plus => rfl
    | minus => cases (List.cons.inj h).1
  | minus =>
    cases sign' with
    | absent =>
      obtain rfl : _ = rest' := h
      exact absurd rfl (hs' rfl _ rfl).2
    | plus => cases (List.cons.inj h).1
    | minus => rfl

end Sign

/-- A blank is no digit: each range of blanks ends before the digits of a script, or begins behind
them. -/
theorem CodePoint.digitValue?_of_isBlank {c : CodePoint} (h : c.isBlank = true) :
    c.digitValue? = none := by
  have hapart : ∀ r ∈ CharSet.blank.ranges, ∀ first ∈ digitZeros,
      r.2 < first ∨ first + 10 ≤ r.1 := by
    decide +kernel
  obtain ⟨r, hr, hlow, hhigh⟩ := CharSet.contains_iff.1 h
  rw [digitValue?, Option.map_eq_none_iff, List.find?_eq_none]
  intro first hfirst
  have := hapart r hr first hfirst
  simp only [Bool.and_eq_true, decide_eq_true_eq]
  omega

namespace Text

/-- The number that decimal digits with their values denote, the most significant first. -/
def positional (digits : List (CodePoint × Nat)) : Nat :=
  Nat.ofDigits 10 (digits.map (·.2)).reverse

/-- The text is some blanks, a sign or none, some decimal digits, each with its value, and a rest. -/
structure Parts (t blanks : Text) (sign : Sign) (digits : List (CodePoint × Nat)) (rest : Text) :
    Prop where
  eq : t = blanks ++ (sign.text ++ (digits.map (·.1) ++ rest))
  blank : ∀ c ∈ blanks, c.isBlank = true
  digit : ∀ d ∈ digits, d.1.digitValue? = some d.2

/-- The parts go as far as they can: no blank stands behind the blanks, no sign where none is taken,
and no digit behind the digits. -/
structure Runs (t blanks : Text) (sign : Sign) (digits : List (CodePoint × Nat)) (rest : Text) :
    Prop extends Parts t blanks sign digits rest where
  blank_stops : ∀ c ∈ (sign.text ++ (digits.map (·.1) ++ rest)).head?, c.isBlank = false
  sign_stops : sign.Stops (digits.map (·.1) ++ rest)
  digit_stops : ∀ c ∈ rest.head?, c.digitValue? = none

/-! ## What is denoted -/

variable {t blanks rest : Text} {sign : Sign} {digits : List (CodePoint × Nat)}

theorem Runs.longestRun_blanks (h : t.Runs blanks sign digits rest) :
    LongestRun CodePoint.isBlank blanks (sign.text ++ (digits.map (·.1) ++ rest)) :=
  ⟨h.blank, h.blank_stops⟩

theorem Runs.longestRun_digits (h : t.Runs blanks sign digits rest) :
    LongestRun (·.digitValue?.isSome) (digits.map (·.1)) rest where
  within := List.forall_mem_map.2 fun d hd => by rw [h.digit d hd, Option.isSome_some]
  stops c hc := by rw [h.digit_stops c hc, Option.isSome_none]

/-- The digits are read with their sign, wherever they end. -/
theorem Runs.leadingInteger_eq (h : t.Runs blanks sign digits rest) :
    t.leadingInteger = sign.apply (positional digits) := by
  have hvalue : (digitsValue (leadingDigits (digits.map (·.1) ++ rest)) : Int) =
      positional digits := by
    rw [leadingDigits, h.longestRun_digits.takeWhile_eq]
    exact congrArg Int.ofNat (foldl_digits_eq h.digit)
  rw [leadingInteger, h.eq, h.longestRun_blanks.dropWhile_eq]
  cases sign with
  | minus => exact congrArg Neg.neg hvalue
  | plus => exact hvalue
  | absent =>
    have hstop := h.sign_stops rfl
    simp only [Sign.text, List.nil_append]
    generalize digits.map (·.1) ++ rest = behind at hvalue hstop
    cases behind with
    | nil => exact hvalue
    | cons c behind =>
      obtain ⟨hplus, hminus⟩ := hstop c rfl
      simp only [if_neg hplus, if_neg hminus]
      exact hvalue

/-! ## Every text, and every way to search it -/

/-- Characters with values as digits, and what follows if it is none. -/
theorem exists_digits : ∀ t : Text, ∃ (digits : List (CodePoint × Nat)) (rest : Text),
    t = digits.map (·.1) ++ rest ∧ (∀ d ∈ digits, d.1.digitValue? = some d.2) ∧
      ∀ c ∈ rest.head?, c.digitValue? = none
  | [] => ⟨[], [], rfl, by simp, by simp⟩
  | c :: t => by
    cases hc : c.digitValue? with
    | none => exact ⟨[], c :: t, rfl, by simp, by simpa using hc⟩
    | some v =>
      obtain ⟨digits, rest, rfl, hdigits, hrest⟩ := exists_digits t
      exact ⟨(c, v) :: digits, rest, rfl, List.forall_mem_cons.2 ⟨hc, hdigits⟩, hrest⟩

theorem exists_sign (t : Text) :
    ∃ (sign : Sign) (rest : Text), t = sign.text ++ rest ∧ sign.Stops rest := by
  cases t with
  | nil => exact ⟨.absent, [], rfl, by simp [Sign.Stops]⟩
  | cons c t =>
    by_cases hplus : c = CodePoint.ofChar '+'
    · exact ⟨.plus, t, by rw [hplus]; rfl, nofun⟩
    by_cases hminus : c = CodePoint.ofChar '-'
    · exact ⟨.minus, t, by rw [hminus]; rfl, nofun⟩
    · exact ⟨.absent, c :: t, rfl, by simp [Sign.Stops, hplus, hminus]⟩

/-- Every text is taken apart into runs. -/
theorem exists_runs (t : Text) : ∃ blanks sign digits rest, t.Runs blanks sign digits rest := by
  obtain ⟨sign, behind, hsign, hstop⟩ := exists_sign (t.dropWhile CodePoint.isBlank)
  obtain ⟨digits, rest, rfl, hdigits, hrest⟩ := exists_digits behind
  have hrun := LongestRun.of_text CodePoint.isBlank t
  rw [hsign] at hrun
  refine ⟨t.takeWhile CodePoint.isBlank, sign, digits, rest, ⟨?_, hrun.within, hdigits⟩,
    hrun.stops, hstop, hrest⟩
  rw [← hsign, List.takeWhile_append_dropWhile]

/-- What stands behind the blanks in front of a digit begins with a sign or with the digit, and neither
is blank. -/
theorem Parts.blank_stops (h : t.Parts blanks sign digits rest) (hne : digits ≠ []) :
    ∀ c ∈ (sign.text ++ (digits.map (·.1) ++ rest)).head?, c.isBlank = false := by
  rintro c hc
  cases sign with
  | plus => cases hc; decide
  | minus => cases hc; decide
  | absent =>
    obtain ⟨d, digits, rfl⟩ := List.exists_cons_of_ne_nil hne
    cases hc
    by_contra hb
    have hnone := CodePoint.digitValue?_of_isBlank (Bool.not_eq_false _ ▸ hb)
    cases hnone.symm.trans (h.digit d List.mem_cons_self)

/-- A digit is no sign. -/
theorem Parts.sign_stops (h : t.Parts blanks sign digits rest) (hne : digits ≠ []) :
    sign.Stops (digits.map (·.1) ++ rest) := by
  obtain ⟨d, digits, rfl⟩ := List.exists_cons_of_ne_nil hne
  have hd : d.1.digitValue? = some d.2 := h.digit d List.mem_cons_self
  rintro - c hc
  cases hc
  constructor
  · rintro (hplus : d.1 = _)
    rw [hplus] at hd
    cases hd
  · rintro (hminus : d.1 = _)
    rw [hminus] at hd
    cases hd

/-- Where digits end is no matter of choice. -/
theorem digits_prefix {digits' : List (CodePoint × Nat)} {rest' : Text}
    (hd : ∀ d ∈ digits, d.1.digitValue? = some d.2)
    (hd' : ∀ d ∈ digits', d.1.digitValue? = some d.2)
    (hr : ∀ c ∈ rest.head?, c.digitValue? = none)
    (h : digits'.map (·.1) ++ rest' = digits.map (·.1) ++ rest) : digits' <+: digits := by
  induction digits' generalizing digits with
  | nil => exact List.nil_prefix
  | cons x digits' ih =>
    obtain ⟨hx, hxs⟩ := List.forall_mem_cons.1 hd'
    cases digits with
    | nil =>
      have hnone := hr x.1 (by rw [← List.nil_append rest, ← List.map_nil, ← h]; rfl)
      cases hnone.symm.trans hx
    | cons y digits =>
      obtain ⟨hy, hys⟩ := List.forall_mem_cons.1 hd
      obtain ⟨hhead, htail⟩ := List.cons.inj h
      have hfst : x.1 = y.1 := hhead
      obtain rfl : x = y := by
        refine Prod.ext hfst (Option.some.inj ?_)
        rw [← hx, ← hy, hfst]
      exact (List.prefix_cons_inj x).2 (ih hys hxs htail)

/-- However a digit is found behind blanks and at most one sign, these blanks and this sign are those of
the runs, and its digits are the first of theirs. -/
theorem Runs.of_parts (h : t.Runs blanks sign digits rest) {blanks' rest' : Text} {sign' : Sign}
    {digits' : List (CodePoint × Nat)} (h' : t.Parts blanks' sign' digits' rest')
    (hne : digits' ≠ []) : blanks' = blanks ∧ sign' = sign ∧ digits' <+: digits := by
  have htail : sign'.text ++ (digits'.map (·.1) ++ rest') =
      sign.text ++ (digits.map (·.1) ++ rest) := by
    have hrun : LongestRun CodePoint.isBlank blanks'
        (sign'.text ++ (digits'.map (·.1) ++ rest')) := ⟨h'.blank, h'.blank_stops hne⟩
    rw [← hrun.dropWhile_eq, ← h'.eq, ← h.longestRun_blanks.dropWhile_eq, ← h.eq]
  have hblanks : blanks' = blanks := by
    have heq := h'.eq.symm.trans h.eq
    rw [htail] at heq
    exact List.append_cancel_right heq
  obtain rfl : sign' = sign := Sign.eq_of_text_append htail (h'.sign_stops hne) h.sign_stops
  exact ⟨hblanks, rfl, digits_prefix h.digit h'.digit h.digit_stops (List.append_cancel_left htail)⟩

/-! ## Numerals that were printed -/

/-- The text of an integer stands among blanks and something that goes on with no digit. -/
theorem runs_render {blanks rest : Text} (hb : ∀ c ∈ blanks, c.isBlank = true)
    (hr : ∀ c ∈ rest.head?, c.digitValue? = none) (n : Int) (i : Bool) :
    ∃ sign digits, (blanks ++ ((Value.int n i).render ++ rest)).Runs blanks sign digits rest ∧
      sign.apply (positional digits) = n := by
  have hvalue : ∀ d ∈ Radix.decimal.digits, (CodePoint.ofChar d.1).digitValue? = some d.2 := by
    decide
  -- whatever sign is put in front of the digits of a number, these are the runs
  have hruns (k : Nat) : ∃ digits : List (CodePoint × Nat), positional digits = k ∧
      ∀ sign : Sign, (blanks ++ ((sign.text ++ ofChars (decimalDigits k)) ++ rest)).Runs
        blanks sign digits rest := by
    obtain ⟨ds, hne, hds, hfst, hval⟩ := exists_decimalDigits k
    let digits := ds.map fun d => (CodePoint.ofChar d.1, d.2)
    have hdigits : digits.map (·.1) = ofChars (decimalDigits k) := by
      simp [digits, ← hfst, ofChars]
    refine ⟨digits, by simpa [positional, digits, Function.comp_def] using hval, fun sign => ?_⟩
    have hparts : (blanks ++ ((sign.text ++ ofChars (decimalDigits k)) ++ rest)).Parts
        blanks sign digits rest := by
      refine ⟨by rw [hdigits, List.append_assoc], hb, fun d hd => ?_⟩
      obtain ⟨e, he, rfl⟩ := List.mem_map.1 hd
      exact hvalue e (hds e he)
    have hne' : digits ≠ [] := by simpa [digits] using hne
    exact ⟨hparts, hparts.blank_stops hne', hparts.sign_stops hne', hr⟩
  cases n with
  | ofNat k =>
    obtain ⟨digits, hval, h⟩ := hruns k
    refine ⟨.absent, digits, ?_, congrArg Int.ofNat hval⟩
    simpa [Value.render, decimal, ofString, Sign.text] using h .absent
  | negSucc k =>
    obtain ⟨digits, hval, h⟩ := hruns (k + 1)
    refine ⟨.minus, digits, ?_, ?_⟩
    · simpa [Value.render, decimal, ofString, Sign.text, ofChars] using h .minus
    · show -(positional digits : Int) = _
      rw [hval]
      rfl

end Text

open Text

/-- **`parseint` reads the integer that a text begins with, and undoes printing.** Behind as many blanks as
there are it takes a sign, if one stands there, and as many decimal digits as there are, and yields the
integer that they denote in base ten, which is zero if there are none; nothing else happens. The parts
are determined: wherever a digit can be found behind some blanks and at most one sign, these are the
blanks and the sign that were taken, and the digits are taken from there on. So the integer that a
numeral was printed from is read, whatever blanks are in front and whatever is behind that is no
digit. -/
theorem Native.parseint_denotes (call : Callable → List Value → Eval Value) (i : Bool)
    (m : Machine) :
    (∀ t : Text, ∃ blanks sign digits rest, t.Runs blanks sign digits rest) ∧
    (∀ (t blanks : Text) (sign : Sign) (digits : List (CodePoint × Nat)) (rest : Text),
      t.Runs blanks sign digits rest →
        perform call .parseint [.string t i] m = .ok (.int (sign.apply (positional digits))) m ∧
        (digits = [] → sign.apply (positional digits) = 0) ∧
        ∀ blanks' sign' digits' rest', t.Parts blanks' sign' digits' rest' → digits' ≠ [] →
          blanks' = blanks ∧ sign' = sign ∧ digits' <+: digits) ∧
    ∀ (n : Int) (j : Bool) (blanks rest : Text), (∀ c ∈ blanks, c.isBlank = true) →
      (∀ c ∈ rest.head?, c.digitValue? = none) →
      perform call .parseint [.string (blanks ++ ((Value.int n j).render ++ rest)) i] m =
        .ok (.int n) m := by
  have hread : ∀ {t blanks : Text} {sign : Sign} {digits : List (CodePoint × Nat)} {rest : Text},
      t.Runs blanks sign digits rest →
      perform call .parseint [.string t i] m = .ok (.int (sign.apply (positional digits))) m := by
    intro t blanks sign digits rest h
    rw [← h.leadingInteger_eq]
    rfl
  refine ⟨exists_runs, fun t blanks sign digits rest h => ⟨hread h, ?_, ?_⟩, ?_⟩
  · rintro rfl
    cases sign <;> rfl
  · exact fun _ _ _ _ h' hne => h.of_parts h' hne
  · intro n j blanks rest hb hr
    obtain ⟨sign, digits, h, hn⟩ := runs_render hb hr n j
    rw [hread h, hn]

/-- Two digits of different scripts behind blanks and a sign, and a second sign behind them; and a
printed integer with a letter behind it. -/
theorem Native.parseint_denotes_mixed_scripts :
    let call : Callable → List Value → Eval Value := fun _ _ => throw .exhausted
    let m := Program.freshMachine []
    let blanks := Text.ofString "\t "
    let digits : List (CodePoint × Nat) :=
      [(CodePoint.ofChar '\u0664', 4), (CodePoint.ofChar '2', 2)]
    let t := Text.ofString "\t -\u06642-7"
    t.Runs blanks .minus digits (Text.ofString "-7") ∧
      perform call .parseint [.string t] m = .ok (.int (-42)) m ∧
      perform call .parseint [.string (blanks ++ ((Value.int (-42)).render ++ "x"))] m =
        .ok (.int (-42)) m := by
  intro call m blanks digits t
  have hblanks : ∀ c ∈ blanks, c.isBlank = true := by decide
  have hruns : t.Runs blanks .minus digits (Text.ofString "-7") := by
    refine ⟨⟨by decide, hblanks, by decide⟩, ?_, nofun, ?_⟩
    · rintro _ ⟨rfl⟩
      decide
    · rintro _ ⟨rfl⟩
      decide
  obtain ⟨-, hread, hprinted⟩ := parseint_denotes call false m
  refine ⟨hruns, (hread _ _ _ _ _ hruns).1, hprinted (-42) false blanks "x" hblanks ?_⟩
  rintro _ ⟨rfl⟩
  decide

end SmallLisp

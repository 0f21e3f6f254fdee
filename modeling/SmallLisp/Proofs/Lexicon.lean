import Mathlib.Data.Nat.Digits.Defs
import Mathlib.Data.List.Basic
import Mathlib.Data.List.TakeWhile
import SmallLisp.Cursor

/-!
# The lexical grammar

What the lexemes of each kind look like, without regard to how they are read:

    INT     -?[0-9]+ | -?0x[0-9a-fA-F]+ | -?0b[01]+
    STRING  a quote, a body in which that quote stands only behind a backslash, the quote again
    word    [A-Za-z_][A-Za-z0-9_]*, at most 255 characters long: a keyword or an identifier

and the operators. `Spells` relates a piece of text to the lexeme that it denotes, `Faulty` says which
texts begin with no lexeme although something stands there, and `Layout` what may stand in front of a
lexeme.
-/

set_option autoImplicit false

namespace SmallLisp

/-! ## Digits -/

/-- The value that is added up digit by digit, the most significant first, is the positional one. -/
theorem foldl_digits_eq {α : Type} {base : Nat} {value? : α → Option Nat} {ds : List (α × Nat)}
    (h : ∀ d ∈ ds, value? d.1 = some d.2) :
    (ds.map (·.1)).foldl (fun n c => n * base + (value? c).getD 0) 0 =
      Nat.ofDigits base (ds.map (·.2)).reverse := by
  rw [Nat.ofDigits_eq_foldr, List.foldr_reverse, List.foldl_map, List.foldl_map]
  refine List.foldl_ext _ _ _ fun n d hd => ?_
  rw [h d hd, Option.getD_some, Nat.cast_id, Nat.add_comm, Nat.mul_comm]

namespace Radix

/-- The digits of a radix, each with its value. -/
def digits : Radix → List (Char × Nat)
  | binary => "01".toList.zipIdx
  | decimal => "0123456789".toList.zipIdx
  | hexadecimal => "0123456789abcdef".toList.zipIdx ++ "ABCDEF".toList.zipIdx 10

theorem digit?_digits (r : Radix) : ∀ d ∈ r.digits, r.digit? d.1 = some d.2 := by
  cases r <;> decide

theorem lt_of_digit? {r : Radix} {c : Char} {v : Nat} (h : r.digit? c = some v) :
    c.toNat < 103 := by
  by_contra hge
  have above : ∀ top : Char, top.toNat < 103 → ¬ c ≤ top := fun top ht hc => by
    have : c.toNat ≤ top.toNat := hc
    omega
  simp [digit?, above '9' (by decide), above 'f' (by decide), above 'F' (by decide)] at h

/-- A character with a value as a digit is among the digits: there are so few candidates that each
can be tried. -/
theorem digit?_eq_some_iff {r : Radix} {c : Char} {v : Nat} :
    r.digit? c = some v ↔ (c, v) ∈ r.digits := by
  refine ⟨fun h => ?_, digit?_digits r (c, v)⟩
  have hall : ∀ n ∈ List.range 103, ∀ v ∈ r.digit? (Char.ofNat n),
      (Char.ofNat n, v) ∈ r.digits := by
    cases r <;> decide
  have hc := hall c.toNat (List.mem_range.2 (lt_of_digit? h))
  rw [Char.ofNat_toNat] at hc
  exact hc v h

theorem isDigit_of_mem {r : Radix} {d : Char × Nat} (h : d ∈ r.digits) : r.isDigit d.1 = true := by
  rw [isDigit, digit?_eq_some_iff.2 h]
  rfl

theorem exists_digit {r : Radix} {c : Char} (h : r.isDigit c = true) : ∃ v, (c, v) ∈ r.digits := by
  obtain ⟨v, hv⟩ := Option.isSome_iff_exists.1 h
  exact ⟨v, digit?_eq_some_iff.1 hv⟩

/-- Characters that are digits have values. -/
theorem exists_digits {r : Radix} : ∀ cs : List Char, (∀ c ∈ cs, r.isDigit c = true) →
    ∃ ds : List (Char × Nat), (∀ d ∈ ds, d ∈ r.digits) ∧ ds.map (·.1) = cs
  | [], _ => ⟨[], by simp, rfl⟩
  | c :: cs, h => by
    obtain ⟨ds, hds, rfl⟩ := exists_digits cs fun c hc => h c (List.mem_cons_of_mem _ hc)
    obtain ⟨v, hv⟩ := exists_digit (h c List.mem_cons_self)
    exact ⟨(c, v) :: ds, List.forall_mem_cons.2 ⟨hv, hds⟩, rfl⟩

theorem value_eq_ofDigits {r : Radix} {ds : List (Char × Nat)} (h : ∀ d ∈ ds, d ∈ r.digits) :
    r.value (ds.map (·.1)) = Nat.ofDigits r.base (ds.map (·.2)).reverse :=
  foldl_digits_eq fun d hd => digit?_digits r d (h d hd)

end Radix

/-! ## What is a lexeme -/

/-- The sign of a negative number; others have none. -/
def minusSign : Bool → List Char
  | true => ['-']
  | false => []

/-- A quote that may enclose a string literal. -/
def IsQuote (c : Char) : Prop := c = '\'' ∨ c = '"'

/-- The content of a string literal, as written between such quotes. A quote of that sort stands only
behind a backslash, and no backslash stands at the end without a character that it applies to. -/
inductive Encodes (quote : Char) : List Char → List Char → Prop
  | nil : Encodes quote [] []
  | plain {c : Char} {body content : List Char} (hq : c ≠ quote) (hb : c ≠ '\\')
      (h : Encodes quote body content) : Encodes quote (c :: body) (c :: content)
  | escaped (c : Char) {body content : List Char} (h : Encodes quote body content) :
      Encodes quote ('\\' :: c :: body) (unescape c :: content)

/-- A word: a letter or an underscore, then letters, digits and underscores. -/
inductive IsWord : List Char → Prop
  | intro {c : Char} {cs : List Char} (hc : isWordStart c = true)
      (hcs : ∀ d ∈ cs, isWordChar d = true) : IsWord (c :: cs)

/-- A piece of text spells a lexeme. -/
inductive Spells : List Char → Lexeme → Prop
  | punct (p : Punct) : Spells p.spelling.toList (.punct p)
  | keyword (k : Keyword) : Spells k.spelling.toList (.keyword k)
  | int (negative : Bool) (radix : Radix) {ds : List (Char × Nat)} (hne : ds ≠ [])
      (hds : ∀ d ∈ ds, d ∈ radix.digits) :
      Spells (minusSign negative ++ radix.mark ++ ds.map (·.1))
        (.int ((if negative then -1 else 1) * Nat.ofDigits radix.base (ds.map (·.2)).reverse))
  | ident {w : List Char} (hw : IsWord w) (hlen : w.length ≤ maxIdentLength)
      (hk : ∀ k : Keyword, w ≠ k.spelling.toList) : Spells w (.ident (String.ofList w))
  | string {quote : Char} {body content : List Char} (hq : IsQuote quote)
      (h : Encodes quote body content) :
      Spells (quote :: (body ++ [quote])) (.string (String.ofList content))

theorem isWordChar_of_isWordStart {c : Char} (h : isWordStart c = true) : isWordChar c = true := by
  simp only [isWordStart, isWordChar, Char.isAlphanum, Bool.or_eq_true] at h ⊢
  tauto

theorem IsWord.ne_nil {w : List Char} (h : IsWord w) : w ≠ [] := by
  cases h
  exact List.cons_ne_nil _ _

theorem IsWord.all {w : List Char} (h : IsWord w) : ∀ c ∈ w, isWordChar c = true := by
  cases h with
  | intro hc hcs => exact List.forall_mem_cons.2 ⟨isWordChar_of_isWordStart hc, hcs⟩

theorem Keyword.isWord_spelling (k : Keyword) : IsWord k.spelling.toList := by
  cases k <;> exact .intro (by decide) (List.all_eq_true.1 (by decide))

theorem Keyword.length_spelling (k : Keyword) : k.spelling.toList.length ≤ maxIdentLength := by
  cases k <;> decide

/-- The first character of an operator is an operator by itself. -/
theorem Punct.spelling_eq_cons (p : Punct) :
    ∃ c cs q, p.spelling.toList = c :: cs ∧ ofChar? c = some q := by
  cases p <;> exact ⟨_, _, _, rfl, rfl⟩

theorem Spells.ne_nil {w : List Char} {x : Lexeme} (h : Spells w x) : w ≠ [] := by
  cases h with
  | punct p =>
    obtain ⟨c, cs, -, hp, -⟩ := p.spelling_eq_cons
    simp [hp]
  | keyword k => exact k.isWord_spelling.ne_nil
  | int negative radix hne => simp [hne]
  | ident hw => exact hw.ne_nil
  | string => simp

/-! ## Runs -/

/-- The elements of `run`, such as the characters of a text, have a property, and what stands behind them
does not go on with it. -/
structure LongestRun {α : Type} (p : α → Bool) (run tail : List α) : Prop where
  within : ∀ c ∈ run, p c = true
  stops : ∀ c ∈ tail.head?, p c = false

namespace LongestRun

variable {α : Type} {p : α → Bool} {run tail : List α}

theorem of_text (p : α → Bool) (cs : List α) :
    LongestRun p (cs.takeWhile p) (cs.dropWhile p) where
  within _ h := List.mem_takeWhile_imp h
  stops c h := by
    have := List.head?_dropWhile_not p cs
    rwa [h] at this

theorem dropWhile_eq (h : LongestRun p run tail) : (run ++ tail).dropWhile p = tail := by
  rw [List.dropWhile_append_of_pos h.within]
  cases tail with
  | nil => rfl
  | cons c tail => rw [List.dropWhile_cons_of_neg (by simp [h.stops c rfl])]

theorem takeWhile_eq (h : LongestRun p run tail) : (run ++ tail).takeWhile p = run := by
  rw [List.takeWhile_append_of_pos h.within]
  cases tail with
  | nil => simp
  | cons c tail => rw [List.takeWhile_cons_of_neg (by simp [h.stops c rfl]), List.append_nil]

end LongestRun

/-! ## What is not a lexeme -/

/-- A text at whose head something stands, but no lexeme. -/
inductive Faulty : List Char → Prop
  /-- No lexeme begins with the first character. -/
  | stray {c : Char} (cs : List Char) (h : ∀ w x, ¬ Spells (c :: w) x) : Faulty (c :: cs)
  /-- The digits of a number, as many as there are, are followed by a letter or a digit of some
  script. The digits are those of the radix that the head of the number tells: behind `0x` and `0b`,
  the zero is not a decimal number. -/
  | glued (negative : Bool) (radix : Radix) {digits tail : List Char} {c : Char}
      (hr : Radix.ofText (radix.mark ++ (digits ++ c :: tail)) = radix) (hne : digits ≠ [])
      (h : LongestRun radix.isDigit digits (c :: tail)) (hc : isGlued c = true) :
      Faulty (minusSign negative ++ (radix.mark ++ (digits ++ c :: tail)))
  /-- The mark of a radix is not followed by a digit. -/
  | noDigits (negative : Bool) {radix : Radix} {tail : List Char} (hm : radix ≠ .decimal)
      (h : ∀ c ∈ tail.head?, radix.isDigit c = false) :
      Faulty (minusSign negative ++ (radix.mark ++ tail))
  /-- A string literal is not closed. -/
  | unclosed {quote : Char} {cs : List Char} (hq : IsQuote quote)
      (h : ∀ body content tail, Encodes quote body content → cs ≠ body ++ quote :: tail) :
      Faulty (quote :: cs)
  /-- A word, as long as it goes, is longer than an identifier may be. -/
  | overlong {w tail : List Char} (hw : IsWord w) (h : LongestRun isWordChar w tail)
      (hlen : maxIdentLength < w.length) : Faulty (w ++ tail)

/-! ## What stands between lexemes -/

/-- The first text is what is passed over in front of the second: blanks, and comments from a semicolon
to the end of the line. -/
inductive Layout : List Char → List Char → Prop
  | nothing {rest : List Char}
      (h : ∀ c ∈ rest.head?, (CodePoint.ofChar c).isBlank = false ∧ c ≠ ';') : Layout [] rest
  | blank {c : Char} {skipped rest : List Char} (hc : (CodePoint.ofChar c).isBlank = true)
      (h : Layout skipped rest) : Layout (c :: skipped) rest
  | comment {body skipped rest : List Char} (hbody : LongestRun (· ≠ '\n') body (skipped ++ rest))
      (h : Layout skipped rest) : Layout (';' :: (body ++ skipped)) rest

theorem layoutWidth_comment {body tail : List Char} (h : LongestRun (· ≠ '\n') body tail) :
    layoutWidth true (body ++ tail) = body.length + layoutWidth false tail := by
  obtain ⟨hbody, hend⟩ := h
  induction body with
  | nil =>
    cases tail with
    | nil => rfl
    | cons c tail =>
      obtain rfl : c = '\n' := by simpa using hend c rfl
      simp only [List.nil_append, List.length_nil, Nat.zero_add]
      rfl
  | cons c body ih =>
    have hc : c ≠ '\n' := by simpa using hbody c List.mem_cons_self
    rw [List.cons_append, layoutWidth, if_pos rfl, decide_eq_true hc,
      ih fun d hd => hbody d (List.mem_cons_of_mem _ hd), List.length_cons]
    omega

theorem layoutWidth_semicolon (cs : List Char) :
    layoutWidth false (';' :: cs) = layoutWidth true cs + 1 := rfl

/-- The width of the layout at the head of a text is that of what can be passed over there. -/
theorem Layout.layoutWidth_eq {skipped rest : List Char} (h : Layout skipped rest) :
    layoutWidth false (skipped ++ rest) = skipped.length := by
  induction h with
  | @nothing rest h =>
    cases rest with
    | nil => rfl
    | cons c rest =>
      obtain ⟨hb, hc⟩ := h c rfl
      simp [layoutWidth, hb, hc]
  | blank hc _ ih => simp [layoutWidth, hc, ih]
  | comment hbody _ ih =>
    rw [List.cons_append, List.append_assoc, layoutWidth_semicolon, layoutWidth_comment hbody, ih]
    simp

/-- What is passed over in front of a text is determined. -/
theorem Layout.unique {skipped rest skipped' rest' : List Char} (h : Layout skipped rest)
    (h' : Layout skipped' rest') (heq : skipped ++ rest = skipped' ++ rest') :
    skipped = skipped' ∧ rest = rest' := by
  refine List.append_inj heq ?_
  rw [← h.layoutWidth_eq, ← h'.layoutWidth_eq, heq]

/-- Every text begins with layout, maybe of no width. -/
theorem exists_layout (n : Nat) : ∀ cs : List Char, cs.length ≤ n →
    ∃ skipped rest, cs = skipped ++ rest ∧ Layout skipped rest := by
  induction n with
  | zero =>
    intro cs hn
    obtain rfl := List.length_eq_zero_iff.1 (Nat.le_zero.1 hn)
    exact ⟨[], [], rfl, .nothing (by simp)⟩
  | succ n ih =>
    intro cs hn
    cases cs with
    | nil => exact ⟨[], [], rfl, .nothing (by simp)⟩
    | cons c cs =>
      have hcs : cs.length ≤ n := Nat.le_of_succ_le_succ hn
      by_cases hb : (CodePoint.ofChar c).isBlank = true
      · obtain ⟨skipped, rest, rfl, h⟩ := ih cs hcs
        exact ⟨c :: skipped, rest, rfl, .blank hb h⟩
      by_cases hc : c = ';'
      · -- the comment runs up to the next newline, and what is passed over goes on there
        subst hc
        have hbody := LongestRun.of_text (fun d => decide (d ≠ '\n')) cs
        have hlen := (List.dropWhile_sublist (fun d => decide (d ≠ '\n')) (l := cs)).length_le
        obtain ⟨skipped, rest, htail, h⟩ := ih _ (Nat.le_trans hlen hcs)
        refine ⟨_, rest, ?_, .comment (htail ▸ hbody) h⟩
        rw [List.cons_append, List.append_assoc, ← htail, List.takeWhile_append_dropWhile]
      · exact ⟨[], c :: cs, rfl, .nothing (by simp [hb, hc])⟩

end SmallLisp

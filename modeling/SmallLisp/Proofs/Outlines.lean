import SmallLisp.Expr.Outline
import SmallLisp.Proofs.Forms
import SmallLisp.Proofs.Preorder
import SmallLisp.Proofs.Spacing

/-!
# What an outline tells

An outline escapes nothing: strings may hold quotes, braces and labels. Still its text determines its
lines, as each begins behind an indentation with something else than a space
(`OutlineLine.eq_of_intercalate_render_eq`). The lines determine the expressions, as what belongs to a
node is indented further than the node itself (`Expr.Every.told`). Main statement:
`Program.outline_injective`.
-/

set_option autoImplicit false

namespace SmallLisp

/-! ## The texts of lexemes -/

theorem decimal_injective : Function.Injective decimal := by
  intro m n h
  have hread (k : Int) : Lexeme.read (decimal k).toList = ⟨.ok (.int k), (decimal k).toList.length⟩ := by
    have hsep : Lexeme.Separates [] := by simp [Lexeme.Separates]
    have := Lexeme.read_of_spells (spells_decimal k) hsep
    rwa [List.append_nil] at this
  have hm := (hread m).symm.trans (h ▸ hread n)
  grind

namespace TokenKind

theorem name_injective : Function.Injective name := by
  intro k k' h
  have hread := forall_of_all (P := fun k => ofName? k.name = some k) (by decide)
  have hk := hread k
  rw [h, hread k'] at hk
  exact (Option.some.inj hk).symm

/-- The name of a kind is a word of its own. -/
theorem space_not_mem_name : ∀ k : TokenKind, ' ' ∉ k.name.toList := forall_of_all (by decide)

end TokenKind

namespace Lexeme

/-- The kind stands in front, and a space behind it unless the text ends there. -/
theorem longestRun_text (x : Lexeme) : ∃ tail : List Char,
    x.text.toList = x.kind.name.toList ++ tail ∧
      LongestRun (fun c => c ≠ ' ') x.kind.name.toList tail := by
  have hname : ∀ c ∈ x.kind.name.toList, decide (c ≠ ' ') = true := fun c hc =>
    decide_eq_true fun h => x.kind.space_not_mem_name (h ▸ hc)
  have htail : ∃ tail : List Char,
      x.text.toList = x.kind.name.toList ++ tail ∧ ∀ c ∈ tail.head?, c = ' ' := by
    cases x <;> simp [text, kind, TokenKind.name]
  obtain ⟨tail, htext, hspace⟩ := htail
  exact ⟨tail, htext, hname, fun c hc => by simp [hspace c hc]⟩

/-- Messages mention different lexemes differently, although nothing is escaped. -/
theorem text_injective : Function.Injective text := by
  intro x y h
  have hkind : x.kind = y.kind := by
    obtain ⟨tail, hx, hrun⟩ := x.longestRun_text
    obtain ⟨tail', hy, hrun'⟩ := y.longestRun_text
    refine TokenKind.name_injective (String.toList_injective ?_)
    rw [← hrun.takeWhile_eq, ← hx, h, hy, hrun'.takeWhile_eq]
  cases x <;> cases y <;> cases hkind
  case int m n => rw [decimal_injective ((String.append_right_inj _).1 h)]
  case ident a b | string a b =>
    simp only [text, String.append_left_inj, String.append_right_inj] at h
    rw [h]
  all_goals rfl

end Lexeme

/-! ## Words put together -/

theorem IsIdentifier.not_mem {x : String} (h : IsIdentifier x) {c : Char} (hc : isWordChar c = false) :
    c ∉ x.toList := by
  intro hmem
  cases hc.symm.trans (h.word.all c hmem)

/-- Words without the character that is put between them are told apart. -/
theorem eq_of_intercalate_eq {sep : String} {c : Char} (hsep : sep.toList = [c]) {ss ss' : List String}
    (hss : ∀ s ∈ ss, s.toList ≠ [] ∧ c ∉ s.toList) (hss' : ∀ s ∈ ss', s.toList ≠ [] ∧ c ∉ s.toList)
    (h : sep.intercalate ss = sep.intercalate ss') : ss = ss' := by
  have hread {ss : List String} (hss : ∀ s ∈ ss, s.toList ≠ [] ∧ c ∉ s.toList) :
      ((sep.intercalate ss).toList.splitOn c).filter (· ≠ []) = ss.map String.toList := by
    rw [String.toList_intercalate, hsep]
    cases ss with
    | nil => rfl
    | cons s ss =>
      rw [List.splitOn_intercalate _ (List.forall_mem_map.2 fun s hs => (hss s hs).2) (by simp)]
      exact List.filter_eq_self.2 (List.forall_mem_map.2 fun s hs => by simpa using (hss s hs).1)
  refine List.map_injective_iff.2 (fun _ _ => String.toList_injective) ?_
  rw [← hread hss, h, hread hss']

theorem not_mem_intercalate_space {c : Char} (hc : c ≠ ' ') {words : List String}
    (h : ∀ x ∈ words, c ∉ x.toList) : c ∉ (" ".intercalate words).toList := by
  have hspace : " ".toList = [' '] := rfl
  rw [String.toList_intercalate, hspace]
  cases words with
  | nil => simp
  | cons x xs =>
    obtain ⟨hx, hxs⟩ := List.forall_mem_cons.1 h
    rw [List.map_cons, intercalate_eq_spaced, spaced, List.mem_append, not_or]
    refine ⟨hx, fun hmem => ?_⟩
    obtain ⟨_, hw, hmem⟩ := List.mem_flatMap.1 hmem
    obtain ⟨y, hy, rfl⟩ := List.mem_map.1 hw
    exact (List.mem_cons.1 hmem).elim hc (hxs y hy)

/-! ## Headings and fields -/

/-- What the first line of a node can say. -/
inductive Heading
  | atom (x : Lexeme)
  | unit | call | function | conditional | declaration | assignment | whileLoop | forLoop

namespace Heading

def text : Heading → String
  | atom x => "Atom -> " ++ x.text
  | unit => "UNIT"
  | call => "FunctionCall" ++ " \x7b"
  | function => "FunctionDef" ++ " \x7b"
  | conditional => "if" ++ " \x7b"
  | declaration => "DeclareVar" ++ " \x7b"
  | assignment => "AssignVar" ++ " \x7b"
  | whileLoop => "while" ++ " \x7b"
  | forLoop => "for" ++ " \x7b"

theorem text_injective : Function.Injective text := by
  intro a b h
  replace h := congrArg String.toList h
  cases a <;> cases b <;> simp [text] at h ⊢
  exact Lexeme.text_injective (String.toList_injective h)

/-- The last line of a node at this depth, if it needs one. -/
def ending (depth : Nat) : Heading → List OutlineLine
  | atom _ | unit => []
  | _ => [.closing depth]

end Heading

namespace Expr

/-- What the first line of a node says. -/
def heading : Expr → Heading
  | literal l _ => .atom l.lexeme
  | name x _ => .atom (.ident x)
  | unit _ => .unit
  | call _ _ _ => .call
  | function _ _ _ => .function
  | ifThen _ _ _ | ifThenElse _ _ _ _ => .conditional
  | declare _ _ | declareAs _ _ _ => .declaration
  | assign _ _ _ => .assignment
  | whileLoop _ _ _ => .whileLoop
  | forLoop _ _ _ _ _ => .forLoop

/-- The lines one level below a node, each with the parts of the node that it announces. -/
def fields : Expr → List (String × List Expr)
  | literal _ _ | name _ _ | unit _ => []
  | call callee args _ => [("op: " ++ callee.lexeme.text, []), ("args: [", args), ("]", [])]
  | function params body _ => [("params: " ++ " ".intercalate params, []), ("body:", [body])]
  | ifThen cond yes _ => [("condition:", [cond]), ("true_branch:", [yes])]
  | ifThenElse cond yes no _ =>
    [("condition:", [cond]), ("true_branch:", [yes]), ("false_branch:", [no])]
  | declare x _ => [("name: " ++ x, [])]
  | declareAs x init _ => [("name: " ++ x, []), ("value:", [init])]
  | assign x value _ => [("name: " ++ x, []), ("value:", [value])]
  | whileLoop cond body _ => [("condition:", [cond]), ("body:", [body])]
  | forLoop init cond post body _ =>
    [("init:", [init]), ("condition:", [cond]), ("post:", [post]), ("body:", [body])]

/-- The lines of some fields of a node at this depth. -/
def fieldLines (depth : Nat) (fs : List (String × List Expr)) : List OutlineLine :=
  fs.flatMap fun f => ⟨depth + 1, f.1⟩ :: outlineAll (depth + 2) f.2

theorem outlineAll_eq_flatMap (depth : Nat) (es : List Expr) :
    outlineAll depth es = es.flatMap (·.outline depth) := by
  induction es with
  | nil => rfl
  | cons e es ih => rw [outlineAll, ih, List.flatMap_cons]

theorem children_eq_flatMap (e : Expr) : e.children = e.fields.flatMap (·.2) := by
  cases e <;> simp [children, fields]

/-- An outline is a heading, the fields, and an end. -/
theorem outline_eq (depth : Nat) (e : Expr) : e.outline depth =
    ⟨depth, e.heading.text⟩ :: (fieldLines depth e.fields ++ e.heading.ending depth) := by
  cases e <;> simp [outline, heading, fields, fieldLines, Heading.ending, Heading.text,
    OutlineLine.opening, outlineAll]

/-! ## Legible nodes -/

/-- A property that every node of an expression has. -/
inductive Every (P : Expr → Prop) : Expr → Prop
  | intro {e : Expr} (here : P e) (below : ∀ c ∈ e.children, Every P c) : Every P e

/-- A node whose names can be read as names, and no string literal of more than one line. -/
structure Legible (e : Expr) : Prop where
  names : ∀ x ∈ e.ownNames, IsIdentifier x
  oneLine : ∀ s pos, e = literal (.string s) pos → '\n' ∉ s.toList

/-! ## Telling expressions by their lines -/

/-- Some lines, if there are any, begin less deep than this. -/
def EndsAt (depth : Nat) (ls : List OutlineLine) : Prop := ∀ l ∈ ls.head?, l.depth < depth

theorem EndsAt.mono {d k : Nat} {ls : List OutlineLine} (h : EndsAt d ls) (hk : d ≤ k) : EndsAt k ls :=
  fun l hl => Nat.lt_of_lt_of_le (h l hl) hk

theorem endsAt_cons {d : Nat} {l : OutlineLine} (h : l.depth < d) (ls : List OutlineLine) :
    EndsAt d (l :: ls) := by
  rintro _ ⟨⟩
  exact h

section
variable {α : Type} {block : α → List OutlineLine} {Same : α → α → Prop} {depth : Nat}

/-- Blocks of lines that begin at one depth are told one by one, if each is told from the next by its
lines. -/
theorem flatMap_append_inj
    (hblock : ∀ a, ∃ first rest, block a = first :: rest ∧ first.depth = depth) {as bs : List α}
    (htold : ∀ a ∈ as, ∀ b ∈ bs, ∀ {r r' : List OutlineLine}, EndsAt (depth + 1) r →
      EndsAt (depth + 1) r' → block a ++ r = block b ++ r' → Same a b ∧ r = r')
    {r r' : List OutlineLine} (hr : EndsAt depth r) (hr' : EndsAt depth r')
    (h : as.flatMap block ++ r = bs.flatMap block ++ r') : List.Forall₂ Same as bs ∧ r = r' := by
  -- what follows a block begins with the next block or with what follows them all
  have hends (as : List α) {r : List OutlineLine} (hr : EndsAt depth r) :
      EndsAt (depth + 1) (as.flatMap block ++ r) := by
    cases as with
    | nil => exact hr.mono (Nat.le_succ _)
    | cons a as =>
      obtain ⟨first, rest, ha, rfl⟩ := hblock a
      rw [List.flatMap_cons, ha]
      exact endsAt_cons (Nat.lt_succ_self _) _
  have hnil (b : α) (bs : List α) (r' : List OutlineLine) :
      ¬ EndsAt depth ((b :: bs).flatMap block ++ r') := by
    obtain ⟨first, rest, hb, rfl⟩ := hblock b
    rw [List.flatMap_cons, hb]
    exact fun hr => Nat.lt_irrefl _ (hr first rfl)
  induction as generalizing bs with
  | nil =>
    cases bs with
    | nil => exact ⟨.nil, h⟩
    | cons b bs => exact absurd (h ▸ hr) (hnil b bs r')
  | cons a as ih =>
    cases bs with
    | nil => exact absurd (h ▸ hr') (hnil a as r)
    | cons b bs =>
      rw [List.flatMap_cons, List.flatMap_cons, List.append_assoc, List.append_assoc] at h
      obtain ⟨hhead, h⟩ :=
        htold a List.mem_cons_self b List.mem_cons_self (hends as hr) (hends bs hr') h
      obtain ⟨htail, h⟩ := ih (fun a ha b hb =>
        htold a (List.mem_cons_of_mem _ ha) b (List.mem_cons_of_mem _ hb)) h
      exact ⟨.cons hhead htail, h⟩

end

/-- The lines of an expression tell it from every other one, up to positions, whatever follows them. -/
def Told (e : Expr) : Prop := ∀ {e' : Expr}, Every Legible e' → ∀ {depth : Nat} {r r' : List OutlineLine},
  EndsAt (depth + 1) r → EndsAt (depth + 1) r' → e.outline depth ++ r = e'.outline depth ++ r' →
    e.unplaced = e'.unplaced ∧ r = r'

theorem unplacedAll_eq_of_forall₂ {es es' : List Expr}
    (h : List.Forall₂ (fun e e' => e.unplaced = e'.unplaced) es es') :
    unplacedAll es = unplacedAll es' := by
  induction h with
  | nil => rfl
  | cons hhead _ ih => rw [unplacedAll, unplacedAll, hhead, ih]

theorem outlineAll_append_inj {es : List Expr} (hes : ∀ e ∈ es, Told e) {es' : List Expr}
    (hes' : ∀ e ∈ es', Every Legible e) {depth : Nat} {r r' : List OutlineLine} (hr : EndsAt depth r)
    (hr' : EndsAt depth r') (h : outlineAll depth es ++ r = outlineAll depth es' ++ r') :
    unplacedAll es = unplacedAll es' ∧ r = r' := by
  rw [outlineAll_eq_flatMap, outlineAll_eq_flatMap] at h
  have hsame : List.Forall₂ (fun e e' => e.unplaced = e'.unplaced) es es' ∧ r = r' :=
    flatMap_append_inj (fun e => ⟨_, _, outline_eq depth e, rfl⟩)
      (fun e he e' he' => hes e he (hes' e' he')) hr hr' h
  exact ⟨unplacedAll_eq_of_forall₂ hsame.1, hsame.2⟩

/-- Two fields that say the same and announce the same parts, up to positions. -/
def SameField (f f' : String × List Expr) : Prop := f.1 = f'.1 ∧ unplacedAll f.2 = unplacedAll f'.2

theorem fieldLines_append_inj {fs : List (String × List Expr)} (hfs : ∀ f ∈ fs, ∀ c ∈ f.2, Told c)
    {fs' : List (String × List Expr)} (hfs' : ∀ f ∈ fs', ∀ c ∈ f.2, Every Legible c) {depth : Nat}
    {r r' : List OutlineLine} (hr : EndsAt (depth + 1) r) (hr' : EndsAt (depth + 1) r')
    (h : fieldLines depth fs ++ r = fieldLines depth fs' ++ r') :
    List.Forall₂ SameField fs fs' ∧ r = r' := by
  unfold fieldLines at h
  refine flatMap_append_inj ?_ ?_ hr hr' h
  · exact fun f => ⟨_, _, rfl, rfl⟩
  intro f hf f' hf' r r' hr hr' h
  obtain ⟨hlabel, h⟩ := List.cons.inj h
  obtain ⟨hparts, h⟩ := outlineAll_append_inj (hfs f hf) (hfs' f' hf') hr hr' h
  exact ⟨⟨congrArg OutlineLine.text hlabel, hparts⟩, h⟩

theorem Legible.params_apart {params : List String} {body : Expr} {pos : Position}
    (h : Legible (.function params body pos)) : ∀ x ∈ params, x.toList ≠ [] ∧ ' ' ∉ x.toList := by
  intro x hx
  have hname := h.names x hx
  exact ⟨hname.word.ne_nil, hname.not_mem (by decide)⟩

theorem unplaced_of_atom {e : Expr} {x : Lexeme} (h : e.heading = .atom x) :
    some e.unplaced = ofToken? ⟨x, .start⟩ := by
  cases e with
  | literal l pos =>
    obtain rfl := Heading.atom.inj h
    cases l with
    | bool b => cases b <;> rfl
    | _ => rfl
  | name y pos =>
    obtain rfl := Heading.atom.inj h
    rfl
  | _ => cases h

/-- A node is known, up to positions, by its heading and its fields. -/
theorem unplaced_of_fields {e e' : Expr} (he : Legible e) (he' : Legible e')
    (hheading : e.heading = e'.heading) (hfields : List.Forall₂ SameField e.fields e'.fields) :
    e.unplaced = e'.unplaced := by
  cases e with
  | literal l pos | name x pos =>
    exact Option.some.inj ((unplaced_of_atom rfl).trans (unplaced_of_atom hheading.symm).symm)
  | unit pos =>
    cases e' <;> cases hheading
    rfl
  | call f args pos =>
    cases e' <;> cases hheading
    rename_i f' args' pos'
    simp only [fields, List.forall₂_cons, SameField, String.append_right_inj] at hfields
    obtain ⟨⟨hf, -⟩, ⟨-, hargs⟩, -⟩ := hfields
    have hcallee := congrArg Callee.ofLexeme? (Lexeme.text_injective hf)
    rw [Callee.ofLexeme?_lexeme, Callee.ofLexeme?_lexeme] at hcallee
    rw [unplaced, unplaced, Option.some.inj hcallee, hargs]
  | function params body pos =>
    cases e' <;> cases hheading
    rename_i params' body' pos'
    simp only [fields, List.forall₂_cons, SameField, String.append_right_inj, unplacedAll] at hfields
    obtain ⟨⟨hparams, -⟩, ⟨-, hbody⟩, -⟩ := hfields
    have := eq_of_intercalate_eq rfl he.params_apart he'.params_apart hparams
    rw [unplaced, unplaced, this, (List.cons.inj hbody).1]
  | _ =>
    cases e' <;> cases hheading <;>
      simp_all [fields, SameField, unplaced, unplacedAll]

theorem Every.told {e : Expr} (he : Every Legible e) : Told e := by
  induction he with
  | @intro e here below ih =>
    rintro e' ⟨here', below'⟩ depth r r' hr hr' h
    have hends {h : Heading} {r : List OutlineLine} (hr : EndsAt (depth + 1) r) :
        EndsAt (depth + 1) (h.ending depth ++ r) := by
      cases h with
      | atom | unit => exact hr
      | _ => exact endsAt_cons (Nat.lt_succ_self _) _
    rw [children_eq_flatMap] at ih below'
    have hparts : ∀ f ∈ e.fields, ∀ c ∈ f.2, Told c := fun f hf c hc =>
      ih c (List.mem_flatMap_of_mem hf hc)
    have hparts' : ∀ f ∈ e'.fields, ∀ c ∈ f.2, Every Legible c := fun f hf c hc =>
      below' c (List.mem_flatMap_of_mem hf hc)
    rw [outline_eq, outline_eq, List.cons_append, List.cons_append, List.append_assoc,
      List.append_assoc] at h
    obtain ⟨hfirst, h⟩ := List.cons.inj h
    have hheading := Heading.text_injective (congrArg OutlineLine.text hfirst)
    obtain ⟨hfields, h⟩ := fieldLines_append_inj hparts hparts' (hends hr) (hends hr') h
    rw [hheading] at h
    exact ⟨unplaced_of_fields here here' hheading hfields, List.append_cancel_left h⟩

/-- The lines of some expressions tell them from all others, up to positions. -/
theorem unplacedAll_of_outlineAll {es es' : List Expr} (hes : ∀ e ∈ es, Every Legible e)
    (hes' : ∀ e ∈ es', Every Legible e) (h : outlineAll 0 es = outlineAll 0 es') :
    unplacedAll es = unplacedAll es' := by
  have hnil : EndsAt 0 [] := by simp [EndsAt]
  exact (outlineAll_append_inj (fun e he => (hes e he).told) hes' hnil hnil (by rw [h])).1

end Expr

/-! ## Telling lines by their texts -/

/-- A text that can stand behind an indentation on one line. -/
structure IsLineText (s : String) : Prop where
  nonempty : s.toList ≠ []
  begins : s.toList.head? ≠ some ' '
  oneLine : '\n' ∉ s.toList

instance (s : String) : Decidable (IsLineText s) :=
  decidable_of_iff (s.toList ≠ [] ∧ s.toList.head? ≠ some ' ' ∧ '\n' ∉ s.toList)
    ⟨fun ⟨h, hb, hl⟩ => ⟨h, hb, hl⟩, fun ⟨h, hb, hl⟩ => ⟨h, hb, hl⟩⟩

theorem IsLineText.append {s t : String} (hs : IsLineText s) (ht : '\n' ∉ t.toList) :
    IsLineText (s ++ t) := by
  obtain ⟨hne, hbegins, hline⟩ := hs
  refine ⟨?_, ?_, ?_⟩
  · simp [hne]
  · rwa [String.toList_append, List.head?_append_of_ne_nil _ hne]
  · simp [hline, ht]

namespace OutlineLine

/-- The line that is rendered as this text. -/
def ofText (s : String) : OutlineLine where
  depth := (s.toList.takeWhile fun c => c = ' ').length / 4
  text := String.ofList (s.toList.dropWhile fun c => c = ' ')

theorem ofText_render {l : OutlineLine} (h : IsLineText l.text) : ofText l.render = l := by
  have hrun : LongestRun (fun c => c = ' ') (List.replicate (4 * l.depth) ' ') l.text.toList := by
    refine ⟨by simp, fun c hc => decide_eq_false ?_⟩
    rintro rfl
    exact h.begins hc
  have hlist : l.render.toList = List.replicate (4 * l.depth) ' ' ++ l.text.toList := by simp [render]
  rw [ofText, hlist, hrun.takeWhile_eq, hrun.dropWhile_eq, List.length_replicate,
    String.ofList_toList, Nat.mul_div_cancel_left _ (by decide)]

theorem render_apart {l : OutlineLine} (h : IsLineText l.text) :
    l.render.toList ≠ [] ∧ '\n' ∉ l.render.toList := by
  simp [render, h.nonempty, h.oneLine]

/-- Lines that are put together with newlines are told by the whole. -/
theorem eq_of_intercalate_render_eq {ls ls' : List OutlineLine} (hls : ∀ l ∈ ls, IsLineText l.text)
    (hls' : ∀ l ∈ ls', IsLineText l.text)
    (h : "\n".intercalate (ls.map render) = "\n".intercalate (ls'.map render)) : ls = ls' := by
  have hread {ls : List OutlineLine} (hls : ∀ l ∈ ls, IsLineText l.text) :
      (ls.map render).map ofText = ls := by
    rw [List.map_map]
    exact (List.map_congr_left fun l hl => ofText_render (hls l hl)).trans (List.map_id ls)
  have hmap := eq_of_intercalate_eq rfl
    (List.forall_mem_map.2 fun l hl => render_apart (hls l hl))
    (List.forall_mem_map.2 fun l hl => render_apart (hls' l hl)) h
  rw [← hread hls, hmap, hread hls']

end OutlineLine

/-! ## Lines of legible nodes -/

theorem newline_not_mem_decimal (n : Int) : '\n' ∉ (decimal n).toList := by
  have hdigits (k : Nat) : '\n' ∉ decimalDigits k := by
    obtain ⟨ds, -, hds, hfst, -⟩ := exists_decimalDigits k
    have hall : ∀ d ∈ Radix.decimal.digits, d.1 ≠ '\n' := by decide
    rw [← hfst, List.mem_map]
    rintro ⟨d, hd, hnl⟩
    exact hall d (hds d hd) hnl
  cases n with
  | ofNat k => simpa [decimal] using hdigits k
  | negSucc k => simpa [decimal] using hdigits (k + 1)

/-- The text of a lexeme has a newline only in its content. -/
theorem Lexeme.newline_not_mem_text {x : Lexeme}
    (h : ∀ s, x = .ident s ∨ x = .string s → '\n' ∉ s.toList) : '\n' ∉ x.text.toList := by
  cases x with
  | eof => decide
  | punct p => cases p <;> decide
  | keyword k => cases k <;> decide
  | int n => simpa [text, TokenKind.name] using newline_not_mem_decimal n
  | ident s => simpa [text, TokenKind.name] using h s (.inl rfl)
  | string s => simpa [text, TokenKind.name] using h s (.inr rfl)

theorem Heading.isLineText {h : Heading} (hx : ∀ x, h = .atom x → '\n' ∉ x.text.toList) :
    IsLineText h.text := by
  cases h with
  | atom x =>
    have hstart : IsLineText "Atom -> " := by decide
    exact hstart.append (hx x rfl)
  | _ => decide

namespace Expr

theorem Legible.newline_not_mem {e : Expr} (h : Legible e) {x : String} (hx : x ∈ e.ownNames) :
    '\n' ∉ x.toList := (h.names x hx).not_mem (by decide)

theorem Legible.isLineText_heading {e : Expr} (h : Legible e) : IsLineText e.heading.text := by
  refine Heading.isLineText fun x hx => Lexeme.newline_not_mem_text fun s hs => ?_
  cases e with
  | literal l pos =>
    obtain rfl := Heading.atom.inj hx
    cases l with
    | string content =>
      obtain rfl : content = s := by simpa [Literal.lexeme] using hs
      exact h.oneLine content pos rfl
    | _ => simp [Literal.lexeme] at hs
  | name y pos =>
    obtain rfl := Heading.atom.inj hx
    obtain rfl : y = s := by simpa using hs
    exact h.newline_not_mem List.mem_cons_self
  | _ => cases hx

theorem Legible.isLineText_field {e : Expr} (h : Legible e) : ∀ f ∈ e.fields, IsLineText f.1 := by
  have hname : IsLineText "name: " := by decide
  cases e with
  | call f args pos =>
    have hop : IsLineText "op: " := by decide
    have hf : '\n' ∉ f.lexeme.text.toList := Lexeme.newline_not_mem_text fun s hs => by
      cases f with
      | named x =>
        obtain rfl : x = s := by simpa [Callee.lexeme] using hs
        exact h.newline_not_mem List.mem_cons_self
      | operator o =>
        have ho : Operator.ofLexeme? o.lexeme = some o := o.ofLexeme?_lexeme
        have hs : o.lexeme = .ident s ∨ o.lexeme = .string s := hs
        obtain hs | hs := hs <;> (rw [hs] at ho; cases ho)
    simp only [fields, List.forall_mem_cons]
    exact ⟨hop.append hf, by decide, by decide, by simp⟩
  | function params body pos =>
    have hparams : IsLineText "params: " := by decide
    have hwords : '\n' ∉ (" ".intercalate params).toList :=
      not_mem_intercalate_space (by decide) fun x hx => h.newline_not_mem hx
    simp only [fields, List.forall_mem_cons]
    exact ⟨hparams.append hwords, by decide, by simp⟩
  | declare x pos =>
    simp only [fields, List.forall_mem_cons]
    exact ⟨hname.append (h.newline_not_mem List.mem_cons_self), by simp⟩
  | declareAs x part pos | assign x part pos =>
    simp only [fields, List.forall_mem_cons]
    exact ⟨hname.append (h.newline_not_mem List.mem_cons_self), by decide, by simp⟩
  | _ =>
    simp only [fields, List.forall_mem_cons]
    decide

theorem Every.isLineText {e : Expr} (he : Every Legible e) (depth : Nat) :
    ∀ l ∈ e.outline depth, IsLineText l.text := by
  induction he generalizing depth with
  | @intro e here below ih =>
    rw [children_eq_flatMap] at ih
    have hending : ∀ l ∈ e.heading.ending depth, IsLineText l.text := by
      cases e.heading <;> simp only [Heading.ending, List.forall_mem_cons, OutlineLine.closing] <;> decide
    rw [outline_eq, List.forall_mem_cons, List.forall_mem_append]
    refine ⟨here.isLineText_heading, ?_, hending⟩
    intro l hl
    obtain ⟨f, hf, hl⟩ := List.mem_flatMap.1 hl
    obtain rfl | hl := List.mem_cons.1 hl
    · exact here.isLineText_field f hf
    · rw [outlineAll_eq_flatMap] at hl
      obtain ⟨c, hc, hl⟩ := List.mem_flatMap.1 hl
      exact ih c (List.mem_flatMap_of_mem hf hc) _ l hl

theorem isLineText_outlineAll {es : List Expr} (hes : ∀ e ∈ es, Every Legible e) :
    ∀ l ∈ outlineAll 0 es, IsLineText l.text := by
  intro l hl
  rw [outlineAll_eq_flatMap] at hl
  obtain ⟨e, he, hl⟩ := List.mem_flatMap.1 hl
  exact (hes e he).isLineText 0 l hl

end Expr

/-! ## Programs that are read from a text -/

/-- The names that a node itself has stand among its tokens in front of its parts. -/
theorem Derivation.ident_mem_front (d : Derivation) {x : String} (hx : x ∈ d.expr.ownNames) :
    .ident x ∈ lexemesOf d.front := by
  cases d with
  | call opened callee pos args closed =>
    cases callee with
    | operator o => cases hx
    | named y => simpa [expr, Expr.ownNames, front, Callee.lexeme, Token.opening] using hx
  | _ => simp_all [expr, Expr.ownNames, front, Token.ident, Token.opening, Token.keyword]

namespace Program

/-- What holds of all nodes of a program holds of all nodes of its expressions. -/
theorem Node.every {p : Program} {P : Expr → Prop} (h : ∀ e, p.Node e → P e) {e : Expr}
    (he : p.Node e) : Expr.Every P e := by
  induction e using Expr.induction_on_children with
  | h e ih => exact .intro (h e he) fun c hc => ih c hc (he.part hc)

/-- The names of a program that is read from a text can be read as names. -/
theorem isIdentifier_of_node {text : List Char} {p : Program} (hp : parse text = .ok p) {e : Expr}
    (he : p.Node e) : ∀ x ∈ e.ownNames, IsIdentifier x := by
  obtain ⟨ds, hyields, hexprs⟩ := exists_derivations_of_parse hp
  obtain ⟨d, rfl, hd⟩ := he.exists_derivation hexprs
  intro x hx
  have hfront : .ident x ∈ lexemesOf d.front := d.ident_mem_front hx
  have hword : .ident x ∈ lexemesOf d.word := by
    rw [d.word_eq, lexemesOf, List.append_assoc, List.map_append]
    exact List.mem_append_left _ hfront
  obtain ⟨hlength, hspells⟩ := List.forall₂_iff_get.1 (hyields.spells (Cursor.start_standsIn text))
  obtain ⟨i, hi⟩ := List.mem_iff_get.1 ((hd.map _).subset hword)
  have hw := hspells i (i.isLt.trans_eq hlength.symm) i.isLt
  rw [Fin.eta, hi] at hw
  generalize List.get _ _ = w at hw
  cases hw with
  | ident hw hlen hk => exact ⟨by simpa using hw, by simpa using hlen, by simpa using hk⟩

/-- The contents of all string literals in a program. -/
def strings (p : Program) : List String :=
  p.nodes.filterMap fun e =>
    match e with
    | .literal (.string s) _ => some s
    | _ => none

theorem mem_strings_iff {p : Program} {s : String} :
    s ∈ p.strings ↔ ∃ pos, p.Node (.literal (.string s) pos) := by
  rw [strings, List.mem_filterMap]
  constructor
  · rintro ⟨e, he, hs⟩
    split at hs
    · cases hs
      exact ⟨_, mem_nodes_iff.1 he⟩
    · cases hs
  · rintro ⟨pos, he⟩
    exact ⟨_, mem_nodes_iff.2 he, rfl⟩

/-- The nodes of a program that is read from a text are legible if its string literals are. -/
theorem legible_of_parse {text : List Char} {p : Program} (hp : parse text = .ok p)
    (h : ∀ s ∈ p.strings, '\n' ∉ s.toList) : ∀ e ∈ p.exprs, Expr.Every Expr.Legible e := fun e he => by
  refine Node.every (fun e he => ⟨isIdentifier_of_node hp he, ?_⟩) (.expr he)
  rintro s pos rfl
  exact h s (mem_strings_iff.2 ⟨pos, he⟩)

/-- **An outline loses nothing** but the positions: two programs whose string literals stand on one line
are the same up to positions if their outlines are the same text. -/
theorem outline_injective {text text' : List Char} {p q : Program} (hp : parse text = .ok p)
    (hq : parse text' = .ok q) (hpl : ∀ s ∈ p.strings, '\n' ∉ s.toList)
    (hql : ∀ s ∈ q.strings, '\n' ∉ s.toList) (h : p.outline = q.outline) :
    Expr.unplacedAll p.exprs = Expr.unplacedAll q.exprs := by
  have hp := legible_of_parse hp hpl
  have hq := legible_of_parse hq hql
  exact Expr.unplacedAll_of_outlineAll hp hq
    (OutlineLine.eq_of_intercalate_render_eq (Expr.isLineText_outlineAll hp)
      (Expr.isLineText_outlineAll hq) h)

/-- The same program laid out in two ways; its strings look like lines of an outline. -/
theorem outline_injective_of_labels :
    let text := "(if x \"body:\" ' \x7d')".toList
    let text' := "( if x ;'\n'body:'\" \x7d\" )".toList
    ∃ p q, parse text = .ok p ∧ parse text' = .ok q ∧
      p.strings = ["body:", " \x7d"] ∧ q.strings = ["body:", " \x7d"] ∧ p.outline = q.outline ∧
      Expr.unplacedAll p.exprs = Expr.unplacedAll q.exprs := by
  intro text text'
  have hread {cs : List Char}
      (h : (parse cs).toOption.map strings = some ["body:", " \x7d"]) :
      ∃ p, parse cs = .ok p ∧ p.strings = ["body:", " \x7d"] := by
    cases hp : parse cs with
    | error e =>
      rw [hp] at h
      cases h
    | ok p =>
      rw [hp] at h
      exact ⟨p, rfl, Option.some.inj h⟩
  obtain ⟨p, hp, hps⟩ := hread (by decide +kernel : (parse text).toOption.map strings = _)
  obtain ⟨q, hq, hqs⟩ := hread (by decide +kernel : (parse text').toOption.map strings = _)
  have h : (parse text).toOption.map outline = (parse text').toOption.map outline := by decide +kernel
  rw [hp, hq] at h
  have h : p.outline = q.outline := Option.some.inj h
  have hlines : ∀ s ∈ ["body:", " \x7d"], '\n' ∉ s.toList := by decide
  exact ⟨p, q, hp, hq, hps, hqs, h, outline_injective hp hq (hps ▸ hlines) (hqs ▸ hlines) h⟩

-- a string literal of more than one line can feign other expressions
example :
    Expr.render [.literal (.string "x'\nUNIT\nAtom -> STRING 'y") .start] =
      Expr.render [.literal (.string "x") .start, .unit .start, .literal (.string "y") .start] := by
  decide

end Program

end SmallLisp

import SmallLisp.Proofs.Following

/-!
# The recursive descent

The machine and the recursive descent read the same. Each form follows the machine if what reads its parts
does (`Descent.Reads`), and all expressions do by induction on the fuel. No more fuel is used up than there
is left to read, since each expression and each item of a list takes a token. Main statements:
`Descent.expression_eq` and `Descent.program_eq`.
-/

set_option autoImplicit false

namespace SmallLisp

theorem Token.kind_punct_iff {t : Token} {p : Punct} : t.kind = .punct p ↔ t.lexeme = .punct p := by
  obtain ⟨l, pos⟩ := t
  cases l <;> simp [kind, Lexeme.kind]

namespace Descent

open SmallLisp.Parser

/-! ## Parts of forms -/

theorem looking_take : Looking take := looking_peek.bind _

theorem looking_takeIf (kind : TokenKind) : Looking (takeIf kind) := looking_peek.bind _

section
variable {spent : Prop} {r : Reader} (hr : r.Sound)
include hr

/-- The end of a form that has all its parts. -/
theorem follows_closing {α : Type} {next : α → Run Expr} {e : Expr} {expected : String}
    {note : Option String} {outer : List Context} {a : Token → α}
    (hnext : ∀ t, next (a t) = resume (.complete e outer)) :
    Follows spent (resume (.reading ⟨.closing e expected note, outer⟩))
      (take >>= fun t =>
        if t.kind = .punct .closeParen then pure (a t) else refuse expected t note) next r := by
  refine (looking_take.bind _).follows (looks_resume _) hr fun t s _ hp => ?_
  by_cases hc : t.lexeme = .punct .closeParen
  · refine follows_taken hp (q := .complete e outer) (if_pos hc) (bind_ok (take_eq hp)) ?_
    rw [if_pos (Token.kind_punct_iff.2 hc)]
    exact follows_ok rfl .refl (by rw [hnext])
  · refine follows_refused hp (if_neg hc) rfl ?_
    refine (bind_ok (take_eq hp)).trans ?_
    rw [if_neg (mt Token.kind_punct_iff.1 hc)]
    rfl

theorem follows_end (e : Expr) (expected : String) (outer : List Context) :
    Follows spent (resume (.reading ⟨.closing e expected none, outer⟩))
      (expect (.punct .closeParen) expected >>= fun _ => pure e)
      (fun e => resume (.complete e outer)) r := by
  have hclosing : Follows spent (resume (.reading ⟨.closing e expected none, outer⟩))
      (expect (.punct .closeParen) expected) (fun _ => resume (.complete e outer)) r :=
    follows_closing hr fun _ => rfl
  exact hclosing.bind fun _ _ _ _ => follows_ok rfl .refl rfl

/-- The name that a form binds. -/
theorem follows_binder {form : Binder} {pos : Position} {outer : List Context} {expected : String}
    {q : String → Progress}
    (hname : ∀ x, Configuration.step ⟨.binder form pos, outer⟩ (.ident x) = some (q x.1))
    (hexpected : ∀ l, (Focus.binder form pos).expected l = expected) :
    Follows spent (resume (.reading ⟨.binder form pos, outer⟩)) (expectName expected)
      (fun x => resume (q x)) r := by
  refine (looking_take.bind _).follows (looks_resume _) hr fun t s _ hp => ?_
  obtain ⟨l, at'⟩ := t
  cases l with
  | ident x =>
    exact follows_taken hp (hname (x, at')) (bind_ok (take_eq hp)) (follows_ok rfl .refl rfl)
  | _ =>
    refine follows_refused hp rfl ?_ (bind_ok (take_eq hp))
    show SyntaxError.mk _ _ none = _
    rw [hexpected]

end

section
variable {α : Type} {spent : Prop} {next : α → Run Expr} {r : Reader} {t : Token}
  (hp : r.peeked = some t) {c : Configuration} {outer : List Context}
include hp

/-- The end of a form, or else another part of it. -/
theorem follows_closeOr {e : Expr} {ctx : Context} {f : Option Token → Descent α}
    (hs : c.step t = Configuration.closeOr e ctx outer t)
    (hclose : Follows spent (resume (.complete e outer)) (f (some t)) next r.drop)
    (hother : t.lexeme ≠ .punct .closeParen → Follows spent (resume (.reading c)) (f none) next r) :
    Follows spent (resume (.reading c)) (takeIf (.punct .closeParen) >>= f) next r := by
  by_cases hc : t.lexeme = .punct .closeParen
  · have htake := takeIf_eq hp (.punct .closeParen)
    rw [if_pos (Token.kind_punct_iff.2 hc)] at htake
    exact follows_taken hp (hs.trans (if_pos hc)) (bind_ok htake) hclose
  · have htake := takeIf_eq hp (.punct .closeParen)
    rw [if_neg (mt Token.kind_punct_iff.1 hc)] at htake
    exact (hother hc).of_eq .refl (bind_ok htake) rfl

/-- Another part of a form, where the focus takes the token as the first of an expression. -/
theorem Follows.operand {expected : String} {x : Descent α}
    (h : Follows spent (resume (.reading ⟨.operand expected, outer⟩)) x next r)
    (hs : c.step t = Configuration.enter outer t) (hf : c.focus.takesRefused = false)
    (he : c.focus.expected t.lexeme = expected) :
    Follows spent (resume (.reading c)) x next r :=
  h.of_eq .refl rfl (resume_operand (p := r.parser) hp hs hf he)

end

/-! ## Forms -/

/-- What reads the parts of a form follows the machine, and takes a token with each part. The fuel that it
has used up bounds how much is left to read. -/
structure Reads (inner : String → Descent Expr) (fuel : Nat) : Prop where
  follows {r : Reader} (hr : r.Sound) (expected : String) (outer : List Context) :
    Follows (fuel ≤ r.unread) (resume (.reading ⟨.operand expected, outer⟩)) (inner expected)
      (fun e => resume (.complete e outer)) r
  consumes {r r' : Reader} {expected : String} {e : Expr} (hr : r.Sound)
    (h : inner expected r = .ok e r') : r.Consumes r'

section
variable {inner : String → Descent Expr} {fuel : Nat} (hin : Reads inner fuel)
include hin

/-- A part somewhere in a form. -/
theorem Reads.part {r s : Reader} (hr : r.Sound) (h : r.Advances s) (expected : String)
    (outer : List Context) :
    Follows (fuel ≤ r.unread) (resume (.reading ⟨.operand expected, outer⟩)) (inner expected)
      (fun e => resume (.complete e outer)) s :=
  (hin.follows (h.sound hr) expected outer).mono fun hle => Nat.le_trans hle h.unread_le

variable {r : Reader} (hr : r.Sound) (pos : Position) (outer : List Context)
include hr

theorem follows_ifForm :
    Follows (fuel ≤ r.unread) (resume (.reading ⟨.operand "condition", .ifCondition pos :: outer⟩))
      (ifForm inner pos) (fun e => resume (.complete e outer)) r := by
  refine (hin.part hr .refl _ _).bind fun cond s₁ _ h₁ => ?_
  refine (hin.part hr h₁ _ _).bind fun yes s₂ _ h₂ => ?_
  have h₂ : r.Advances s₂ := h₁.trans h₂
  refine follows_peek (looks_resume _) (h₂.sound hr) fun t s₃ h₃ hp => ?_
  have h₃ : r.Advances s₃ := h₂.trans h₃
  split
  · rename_i ht
    have ht := Token.isEof_iff.1 ht
    exact follows_refuse hp (Configuration.step_eof _ ht) rfl (if_pos ht)
  · rename_i ht
    refine follows_closeOr hp rfl (follows_ok rfl .refl rfl) fun hc => ?_
    refine Follows.operand hp ?_ (Configuration.closeOr_other hc _ _ _) rfl
      (if_neg (mt Token.isEof_iff.2 ht))
    refine (hin.part hr h₃ _ _).bind fun no s₄ _ h₄ => ?_
    have h₄ : r.Advances s₄ := h₃.trans h₄
    exact follows_closing (h₄.sound hr) fun _ => rfl

theorem follows_declareForm :
    Follows (fuel ≤ r.unread) (resume (.reading ⟨.binder .declare pos, outer⟩))
      (declareForm inner pos) (fun e => resume (.complete e outer)) r := by
  refine Follows.bind (follows_binder hr (q := fun x => .reading ⟨.initializer x pos, outer⟩)
    (fun _ => rfl) fun _ => rfl) fun x s₁ _ h₁ => ?_
  refine ((looking_takeIf _).bind _).follows (looks_resume _) (h₁.sound hr)
    fun t s₂ h₂ hp => ?_
  have h₂ : r.Advances s₂ := h₁.trans h₂
  refine follows_closeOr hp rfl (follows_ok rfl .refl rfl) fun hc => ?_
  refine Follows.operand hp ?_ (Configuration.closeOr_other hc _ _ _) rfl rfl
  refine (hin.part hr h₂ _ _).bind fun init s₃ _ h₃ => ?_
  have h₃ : r.Advances s₃ := h₂.trans h₃
  exact follows_end (h₃.sound hr) _ _ _

theorem follows_assignForm :
    Follows (fuel ≤ r.unread) (resume (.reading ⟨.binder .assign pos, outer⟩))
      (assignForm inner pos) (fun e => resume (.complete e outer)) r := by
  refine Follows.bind (follows_binder hr
    (q := fun x => .reading ⟨.operand "variable value", .assigned x pos :: outer⟩)
    (fun _ => rfl) fun _ => rfl) fun x s₁ _ h₁ => ?_
  refine (hin.part hr h₁ _ _).bind fun value s₂ _ h₂ => ?_
  have h₂ : r.Advances s₂ := h₁.trans h₂
  exact follows_end (h₂.sound hr) _ _ _

theorem follows_whileForm :
    Follows (fuel ≤ r.unread)
      (resume (.reading ⟨.operand "while condition", .whileCondition pos :: outer⟩))
      (whileForm inner pos) (fun e => resume (.complete e outer)) r := by
  refine (hin.part hr .refl _ _).bind fun cond s₁ _ h₁ => ?_
  refine (hin.part hr h₁ _ _).bind fun body s₂ _ h₂ => ?_
  have h₂ : r.Advances s₂ := h₁.trans h₂
  exact follows_end (h₂.sound hr) _ _ _

theorem follows_forForm :
    Follows (fuel ≤ r.unread) (resume (.reading ⟨.operand "FOR init", .forInit pos :: outer⟩))
      (forForm inner pos) (fun e => resume (.complete e outer)) r := by
  refine (hin.part hr .refl _ _).bind fun init s₁ _ h₁ => ?_
  refine (hin.part hr h₁ _ _).bind fun cond s₂ _ h₂ => ?_
  have h₂ : r.Advances s₂ := h₁.trans h₂
  refine (hin.part hr h₂ _ _).bind fun post s₃ _ h₃ => ?_
  have h₃ : r.Advances s₃ := h₂.trans h₃
  refine (hin.part hr h₃ _ _).bind fun body s₄ _ h₄ => ?_
  have h₄ : r.Advances s₄ := h₃.trans h₄
  exact follows_end (h₄.sound hr) _ _ _

end

/-! ## Forms with a list of parts -/

/-- Items of a list follow the machine through its states, up to what is no item. -/
theorem follows_collect {α β : Type} {item : Descent (Option α)} {fuel : Nat}
    {state stop : List α → Run β}
    (hitem : ∀ (before : List α) {r : Reader}, r.Sound → Follows (fuel ≤ r.unread) (state before)
      item (fun a => a.elim (stop before) fun a => state (before ++ [a])) r)
    (hconsumes : ∀ {a : α} {r s : Reader}, r.Sound → item r = .ok (some a) s → r.Consumes s)
    {rounds : Nat} (hle : rounds ≤ fuel) (before : List α) {r : Reader} (hr : r.Sound) :
    Follows (rounds ≤ r.unread) (state before) (collect item rounds)
      (fun as => stop (before ++ as)) r := by
  induction rounds generalizing before r with
  | zero => exact Nat.zero_le r.unread
  | succ rounds ih =>
    refine ((hitem before hr).mono (Nat.le_trans hle)).bind fun a s hs h => ?_
    cases a with
    | none => exact follows_ok rfl .refl (by rw [List.append_nil]; rfl)
    | some a =>
      -- the item has taken a token, so the rounds that are left are enough for what is left to read
      have hlt := h.unread_lt (hconsumes hr hs)
      refine Follows.bind ((ih (Nat.le_of_succ_le hle) (before ++ [a]) (h.sound hr)).mono
        fun hle => ?_) fun as s' _ _ => follows_ok rfl .refl ?_
      · omega
      · rw [List.append_assoc, List.singleton_append]

/-- Where a list ends, what comes next is no item. -/
theorem exists_of_collect {α : Type} {item : Descent (Option α)} {rounds : Nat} {r s : Reader}
    {as : List α} (h : collect item rounds r = .ok as s) : ∃ q, item q = .ok none s := by
  induction rounds generalizing r as with
  | zero => cases h
  | succ rounds ih =>
    obtain ⟨a, q, hq, h⟩ := exists_of_bind_ok h
    cases a with
    | none =>
      cases h
      exact ⟨r, hq⟩
    | some a =>
      obtain ⟨as', q', hq', h⟩ := exists_of_bind_ok h
      cases h
      exact ih hq'

section
variable {r : Reader}

theorem follows_parameter {spent : Prop} (hr : r.Sound) (pos : Position) (outer : List Context)
    (before : List (String × Position)) :
    Follows spent (resume (.reading ⟨.parameter before.reverse pos, outer⟩)) parameter
      (fun x => x.elim (resume (.reading ⟨.parameter before.reverse pos, outer⟩))
        fun x => resume (.reading ⟨.parameter (before ++ [x]).reverse pos, outer⟩)) r := by
  refine follows_peek (looks_resume _) hr fun t s _ hp => ?_
  obtain ⟨l, at'⟩ := t
  cases l with
  | ident x =>
    refine follows_taken hp (Configuration.step_parameter_ident _ pos outer (x, at'))
      (bind_ok (take_eq hp)) (follows_ok rfl .refl ?_)
    rw [Option.elim_some, List.reverse_append]
    rfl
  | _ => exact follows_ok rfl .refl rfl

theorem consumes_parameter {x : String × Position} {s : Reader} (h : parameter r = .ok (some x) s) :
    r.Consumes s := by
  obtain ⟨t, q, hq, h⟩ := exists_of_bind_ok h
  obtain ⟨-, hp, htaken⟩ := of_peek hq
  obtain ⟨l, at'⟩ := t
  cases l with
  | ident y =>
    cases (bind_ok (take_eq hp)).symm.trans h
    exact (Reader.consumes_of_drop hp .refl).of_taken htaken
  | _ => cases h

theorem peeked_of_parameter_none {s : Reader} (h : parameter r = .ok none s) :
    ∃ t, s.peeked = some t ∧ ∀ x, t.lexeme ≠ .ident x := by
  obtain ⟨t, q, hq, h⟩ := exists_of_bind_ok h
  obtain ⟨-, hp, -⟩ := of_peek hq
  obtain ⟨l, at'⟩ := t
  cases l with
  | ident y => cases (bind_ok (take_eq hp)).symm.trans h
  | _ =>
    cases h
    exact ⟨_, hp, nofun⟩

end

section
variable {inner : String → Descent Expr} {fuel : Nat} (hin : Reads inner fuel)
include hin

section
variable {r : Reader} (hr : r.Sound) (pos : Position) (outer : List Context)
include hr

/-- The body of a function is what closes its form, or the last of the names in front of it. -/
theorem follows_functionBody (names : List (String × Position)) {t : Token} (hp : r.peeked = some t)
    (hx : ∀ x, t.lexeme ≠ .ident x) :
    Follows (fuel ≤ r.unread) (resume (.reading ⟨.parameter names.reverse pos, outer⟩))
      (functionBody inner names)
      (fun f => resume (.reading
        ⟨.closing (.function (f.1.map (·.1)) f.2 pos) "')' after function body" none, outer⟩)) r := by
  refine Follows.of_eq ?_ .refl (bind_ok (peek_eq hp)) rfl
  split
  · rename_i x at' hlast hc
    obtain ⟨before, rfl⟩ := List.getLast?_eq_some_iff.1 hlast
    -- the parenthesis leads the machine to the same place from here and from the end of the form
    have hclosing (e : Expr) (expected : String) :
        Configuration.step ⟨.closing e expected none, outer⟩ t = some (.complete e outer) := if_pos hc
    have hs : Configuration.step ⟨.parameter (before ++ [(x, at')]).reverse pos, outer⟩ t =
        some (.complete (.function (before.map (·.1)) (.name x at') pos) outer) := by
      rw [List.reverse_append]
      simp [Configuration.step, hc, SmallLisp.names]
    refine follows_ok rfl .refl ?_
    rw [resume_of_step (p := r.parser) hp hs, List.dropLast_concat]
    exact (resume_of_step (p := r.parser) hp (hclosing _ _)).symm
  · rename_i hlast
    have hs : Configuration.step ⟨.parameter names.reverse pos, outer⟩ t =
        Configuration.enter (.functionBody names.reverse pos :: outer) t := by
      by_cases hc : t.lexeme = .punct .closeParen
      · cases names with
        | nil => simp [Configuration.step, hc]
        | cons x names =>
          have hsome := List.getLast?_eq_some_getLast (List.cons_ne_nil x names)
          exact absurd hc (hlast _ _ hsome)
      · exact Configuration.step_parameter_other hc hx _ _ _
    refine Follows.operand hp ?_ hs rfl rfl
    refine (hin.part hr .refl _ _).bind fun body s _ _ => follows_ok rfl .refl ?_
    simp [Progress.complete, Context.resume, SmallLisp.names]

theorem follows_functionForm {rounds : Nat} (hle : rounds ≤ fuel) :
    Follows (rounds ≤ r.unread) (resume (.reading ⟨.parameter [] pos, outer⟩))
      (functionForm inner rounds pos) (fun e => resume (.complete e outer)) r := by
  refine Follows.bind (follows_collect (fun before _ hr => follows_parameter hr pos outer before)
    (fun _ => consumes_parameter) hle [] hr) fun names s₁ hs₁ h₁ => ?_
  obtain ⟨q, hq⟩ := exists_of_collect hs₁
  obtain ⟨t, hp, hx⟩ := peeked_of_parameter_none hq
  have hspent (h : fuel ≤ s₁.unread) : rounds ≤ r.unread :=
    Nat.le_trans hle (Nat.le_trans h h₁.unread_le)
  refine Follows.bind ((follows_functionBody hin (h₁.sound hr) pos outer names hp hx).mono
    hspent) fun f s₂ _ h₂ => ?_
  have h₂ : r.Advances s₂ := h₁.trans h₂
  exact follows_end (h₂.sound hr) _ _ _

theorem follows_argument (callee : Callee) (before : List Expr) :
    Follows (fuel ≤ r.unread) (resume (.reading ⟨.argument callee before.reverse pos, outer⟩))
      (argument inner)
      (fun e => e.elim (resume (.complete (.call callee before pos) outer))
        fun e => resume (.reading ⟨.argument callee (before ++ [e]).reverse pos, outer⟩)) r := by
  refine ((looking_takeIf _).bind _).follows (looks_resume _) hr fun t s h hp => ?_
  refine follows_closeOr hp rfl (follows_ok rfl .refl ?_) fun hc => ?_
  · rw [List.reverse_reverse]
    rfl
  refine Follows.of_eq ?_ .refl (bind_ok (peek_eq hp)) rfl
  split
  · rename_i ht
    have ht := Token.isEof_iff.1 ht
    exact follows_refuse hp (Configuration.step_eof _ ht) rfl (if_pos ht)
  · rename_i ht
    refine Follows.operand hp ?_ (Configuration.closeOr_other hc _ _ _) rfl
      (if_neg (mt Token.isEof_iff.2 ht))
    refine (hin.part hr h _ _).bind fun e s' _ _ => follows_ok rfl .refl ?_
    rw [Option.elim_some, List.reverse_append]
    rfl

end

theorem consumes_argument {r s : Reader} {e : Expr} (hr : r.Sound)
    (h : argument inner r = .ok (some e) s) : r.Consumes s := by
  obtain ⟨closed, q, hq, h⟩ := exists_of_bind_ok h
  cases closed with
  | some t => cases h
  | none =>
    obtain ⟨hadv, htaken⟩ := of_takeIf_none hq
    obtain ⟨t, q', hq', h⟩ := exists_of_bind_ok h
    obtain ⟨hadv', -, htaken'⟩ := of_peek hq'
    split at h
    · cases h
    · obtain ⟨e, s, hs, h⟩ := exists_of_bind_ok h
      cases h
      have hr' := Reader.Advances.sound (hadv.trans hadv') hr
      exact (hin.consumes hr' hs).of_taken (htaken'.trans htaken)

section
variable {r : Reader} (hr : r.Sound) (pos : Position) (outer : List Context)
include hr

theorem follows_callForm {rounds : Nat} (hle : rounds ≤ fuel) (callee : Callee) :
    Follows (rounds ≤ r.unread) (resume (.reading ⟨.argument callee [] pos, outer⟩))
      (callForm inner rounds callee pos) (fun e => resume (.complete e outer)) r := by
  refine Follows.bind (follows_collect
    (fun before _ hr => follows_argument hin hr pos outer callee before)
    (consumes_argument hin) hle [] hr) fun args s₁ _ _ => ?_
  exact follows_ok rfl .refl rfl

end

/-- What a form begins with leads the machine into the form that the descent goes on with. -/
theorem follows_form {rounds : Nat} (hle : rounds ≤ fuel) {r : Reader} (hr : r.Sound)
    (opened : Position) (outer : List Context) {t : Token} (hp : r.peeked = some t)
    (hc : t.lexeme ≠ .punct .closeParen) :
    Follows (rounds ≤ r.unread) (resume (.reading ⟨.head opened, outer⟩))
      (take >>= form inner rounds) (fun e => resume (.complete e outer)) r := by
  have htaken {q : Progress} (hq : Configuration.step ⟨.head opened, outer⟩ t = some q)
      (h : ∀ {s : Reader}, s.Sound → Follows (rounds ≤ s.unread) (resume q) (form inner rounds t)
        (fun e => resume (.complete e outer)) s) :
      Follows (rounds ≤ r.unread) (resume (.reading ⟨.head opened, outer⟩))
        (take >>= form inner rounds) (fun e => resume (.complete e outer)) r := by
    have hadv : r.Advances r.drop := .single (.drop hp (Configuration.isEof_of_step hq))
    exact follows_taken hp hq (bind_ok (take_eq hp))
      ((h (hadv.sound hr)).mono fun hle => Nat.le_trans hle hadv.unread_le)
  have hspent (s : Reader) : fuel ≤ s.unread → rounds ≤ s.unread := Nat.le_trans hle
  obtain ⟨l, pos⟩ := t
  cases l with
  | keyword k =>
    cases k with
    | ifWord =>
      exact htaken rfl fun hs => (follows_ifForm hin hs pos outer).mono (hspent _)
    | functionWord => exact htaken rfl fun hs => follows_functionForm hin hs pos outer hle
    | letWord =>
      exact htaken rfl fun hs => (follows_declareForm hin hs pos outer).mono (hspent _)
    | whileWord =>
      exact htaken rfl fun hs => (follows_whileForm hin hs pos outer).mono (hspent _)
    | forWord => exact htaken rfl fun hs => (follows_forForm hin hs pos outer).mono (hspent _)
    | evalWord => exact htaken rfl fun hs => follows_callForm hin hs pos outer hle _
    | _ => exact follows_refused hp rfl rfl (bind_ok (take_eq hp))
  | punct p =>
    cases p with
    | closeParen => exact absurd rfl hc
    | assign => exact htaken rfl fun hs => (follows_assignForm hin hs pos outer).mono (hspent _)
    | openParen => exact follows_refused hp rfl rfl (bind_ok (take_eq hp))
    | _ => exact htaken rfl fun hs => follows_callForm hin hs pos outer hle _
  | ident x => exact htaken rfl fun hs => follows_callForm hin hs pos outer hle _
  | _ => exact follows_refused hp rfl rfl (bind_ok (take_eq hp))

theorem follows_behindParen {rounds : Nat} (hle : rounds ≤ fuel) {r : Reader} (hr : r.Sound)
    (opened : Position) (outer : List Context) :
    Follows (rounds ≤ r.unread) (resume (.reading ⟨.head opened, outer⟩))
      (behindParen inner rounds opened) (fun e => resume (.complete e outer)) r := by
  refine ((looking_takeIf _).bind _).follows (looks_resume _) hr fun t s h hp => ?_
  have htake := takeIf_eq hp (.punct .closeParen)
  by_cases hc : t.lexeme = .punct .closeParen
  · rw [if_pos (Token.kind_punct_iff.2 hc)] at htake
    have hs : Configuration.step ⟨.head opened, outer⟩ t = some (.complete (.unit opened) outer) := by
      simp [Configuration.step, Configuration.enterForm, hc]
    exact follows_taken hp hs (bind_ok htake) (follows_ok rfl .refl rfl)
  · rw [if_neg (mt Token.kind_punct_iff.1 hc)] at htake
    exact ((follows_form hin hle (h.sound hr) opened outer hp hc).mono
      fun hle => Nat.le_trans hle h.unread_le).of_eq .refl (bind_ok htake) rfl

/-- An expression from its first token on. Behind a token that opens a form there is less left to read, so
that it takes one level more than its parts. -/
theorem follows_expressionNext {rounds : Nat} (hle : rounds ≤ fuel) {r : Reader} (hr : r.Sound)
    (expected : String) (outer : List Context) :
    Follows (rounds < r.unread) (resume (.reading ⟨.operand expected, outer⟩))
      (expressionNext inner rounds expected) (fun e => resume (.complete e outer)) r := by
  refine follows_peek (looks_resume _) hr fun t s h hp => ?_
  split
  · rename_i ho
    have hs : Configuration.step ⟨.operand expected, outer⟩ t =
        some (.reading ⟨.head t.position, outer⟩) := if_pos ho
    have hadv : s.Advances s.drop := .single (.drop hp (Configuration.isEof_of_step hs))
    have hlt := hadv.unread_lt (Reader.consumes_of_drop hp .refl)
    refine follows_taken hp hs (bind_ok (take_eq hp)) ((follows_behindParen hin hle
      (Reader.Advances.sound (h.trans hadv) hr) _ outer).mono fun hle => ?_)
    exact Nat.lt_of_le_of_lt hle (Nat.lt_of_lt_of_le hlt h.unread_le)
  · rename_i ho
    have hs : Configuration.step ⟨.operand expected, outer⟩ t =
        (Expr.ofToken? t).map fun e => .complete e outer := if_neg ho
    cases he : Expr.ofToken? t with
    | some e =>
      rw [he] at hs
      exact follows_taken hp hs (bind_ok (take_eq hp)) (follows_ok rfl .refl rfl)
    | none =>
      rw [he] at hs
      exact follows_refuse hp hs rfl rfl

omit hin in
theorem expressionNext_of_peek {rounds : Nat} {expected : String} {r s : Reader} {t : Token}
    (h : peek r = .ok t s) : expressionNext inner rounds expected r =
      if t.lexeme = .punct .openParen then behindParen inner rounds t.position s.drop
      else
        match Expr.ofToken? t with
        | some e => .ok e s.drop
        | none => .error (.error (.grammar { expected, found := t })) s := by
  have htake {α : Type} (f : Token → Descent α) : (take >>= f) s = f t s.drop :=
    bind_ok (take_eq (of_peek h).2.1)
  refine (bind_ok h).trans ?_
  split
  · exact htake _
  · cases Expr.ofToken? t with
    | some e => exact htake _
    | none => rfl

theorem consumes_expressionNext {rounds : Nat} (hle : rounds ≤ fuel) {r s : Reader} (hr : r.Sound)
    {expected : String} {e : Expr} (h : expressionNext inner rounds expected r = .ok e s) :
    r.Consumes s := by
  obtain ⟨t, q, hq, -⟩ := exists_of_bind_ok h
  obtain ⟨hadv, hp, htaken⟩ := of_peek hq
  refine Reader.Consumes.of_taken (Reader.consumes_of_drop hp ?_) htaken
  rw [expressionNext_of_peek hq] at h
  split at h
  · -- the parenthesis is taken, and what follows it is read from there
    have hdrop : q.drop.Sound := Reader.Reaches.sound (.single (.drop hp)) (hadv.sound hr)
    have hfollows := follows_behindParen hin hle hdrop t.position []
    exact (hfollows.leads (outcome_eq_ok_iff.2 h)).reaches
  · split at h
    · cases h
      exact .refl
    · cases h

/-- A failure with no token taken is that of the look at the first token, or a complaint about it. -/
theorem first_of_expressionNext {rounds : Nat} (hle : rounds ≤ fuel) {r s : Reader} (hr : r.Sound)
    {expected : String} {e : ParseError}
    (h : expressionNext inner rounds expected r = .error (.error e) s) (htaken : s.taken = r.taken) :
    peek r = .error (.error e) s ∨
      ∃ t, peek r = .ok t s ∧ e = .grammar { expected, found := t } := by
  cases hq : peek r with
  | error e' q =>
    have hx : expressionNext inner rounds expected r = .error e' q := bind_error hq
    cases hx.symm.trans h
    exact .inl rfl
  | ok t q =>
    obtain ⟨hadv, hp, htaken'⟩ := of_peek hq
    rw [expressionNext_of_peek hq] at h
    split at h
    · have hdrop : q.drop.Sound := Reader.Reaches.sound (.single (.drop hp)) (hadv.sound hr)
      have hfollows := follows_behindParen hin hle hdrop t.position []
      have hreaches := (hfollows.leads (outcome_eq_error_iff.2 h)).reaches
      have hlt := (Reader.consumes_of_drop hp hreaches).length_lt
      rw [htaken, htaken'] at hlt
      exact absurd hlt (Nat.lt_irrefl _)
    · split at h
      · cases h
      · cases h
        exact .inr ⟨t, rfl, rfl⟩

end

/-- Every expression is read as the machine reads it, if only there is fuel enough. -/
theorem reads_expression : ∀ fuel, Reads (expression fuel) fuel
  | 0 => ⟨fun _ _ _ => Nat.zero_le _, fun _ h => by cases h⟩
  | fuel + 1 => by
    have hin := reads_expression fuel
    exact ⟨follows_expressionNext hin (Nat.le_refl _),
      fun hr h => consumes_expressionNext hin (Nat.le_refl _) hr h⟩

/-! ## Programs -/

section
variable {inner : String → Descent Expr} {fuel : Nat} (hin : Reads inner fuel)
include hin

theorem follows_item (before : List Expr) {r : Reader} (hr : r.Sound) :
    Follows (fuel ≤ r.unread) (resumeAll before.reverse) (item inner)
      (fun e => e.elim (fun p => (.ok before, p)) fun e => resumeAll (before ++ [e]).reverse) r := by
  refine follows_peek (looks_resumeAll _) hr fun t s h hp => ?_
  split
  · rename_i ht
    refine follows_ok rfl .refl ?_
    rw [resumeAll_end (p := s.parser) hp ht, List.reverse_reverse]
    rfl
  · rename_i ht
    have hnext := resumeAll_next (p := s.parser) hp (Bool.eq_false_iff.2 ht) before.reverse
    have hpart : Follows (fuel ≤ r.unread) (resumeAll before.reverse) (inner "expression")
        (fun e => resumeAll (e :: before.reverse)) s :=
      Follows.lift (hin.part hr h "expression" []) hnext
    refine hpart.bind fun e s' _ _ => follows_ok rfl .refl ?_
    rw [Option.elim_some, List.reverse_append]
    rfl

theorem consumes_item {r s : Reader} {e : Expr} (hr : r.Sound)
    (h : item inner r = .ok (some e) s) : r.Consumes s := by
  obtain ⟨t, q, hq, h⟩ := exists_of_bind_ok h
  obtain ⟨hadv, -, htaken⟩ := of_peek hq
  split at h
  · cases h
  · obtain ⟨e, s, hs, h⟩ := exists_of_bind_ok h
    cases h
    exact (hin.consumes (hadv.sound hr) hs).of_taken htaken

end

/-- A program is read as the machine reads it, if only there is fuel enough. -/
theorem follows_program (fuel : Nat) {r : Reader} (hr : r.Sound) :
    Follows (fuel ≤ r.unread) Parser.program (program fuel) (fun p q => (.ok p, q)) r := by
  refine follows_peek looks_program hr fun t s h hp => ?_
  have hin := reads_expression fuel
  have hcollect : Follows (fuel ≤ s.unread) (resumeAll [])
      (collect (item (expression fuel)) fuel) (fun es p => (.ok es, p)) s :=
    follows_collect (fun before _ hr => follows_item hin before hr) (consumes_item hin)
      (Nat.le_refl _) [] (h.sound hr)
  refine Follows.bind (Follows.lift (hcollect.mono fun hle => Nat.le_trans hle h.unread_le)
    (program_of_peek (peek_of_peeked (p := s.parser) hp))) fun es s' _ _ => ?_
  exact follows_ok rfl .refl rfl

section
variable {fuel : Nat} {r : Reader} (hr : r.Sound) (hfuel : r.unread < fuel)
include hr hfuel

/-- **The descent reads expressions as the machine does.** With more fuel than there is left to read, it
comes to the same, and leaves its reader where the machine leaves its own. -/
theorem expression_eq (expected : String) : ∃ a s, (expression fuel expected).outcome r = some (a, s) ∧
    r.parser.expression expected = (a, s.parser) ∧ r.Leads a s := by
  have h := (reads_expression fuel).follows hr expected []
  obtain ⟨a, s, hx⟩ := h.exists_outcome (Nat.not_le.2 hfuel)
  exact ⟨a, s, hx, h.run_eq hx, h.leads hx⟩

/-- **The descent reads programs as the machine does.** -/
theorem program_eq : ∃ a s, (program fuel).outcome r = some (a, s) ∧
    r.parser.program = (a, s.parser) ∧ r.Leads a s := by
  have h := follows_program fuel hr
  obtain ⟨a, s, hx⟩ := h.exists_outcome (Nat.not_le.2 hfuel)
  exact ⟨a, s, hx, h.run_eq hx, h.leads hx⟩

end

end Descent

end SmallLisp

import SmallLisp.Proofs.Prefixes

/-!
# Reading and places

The reader passes on the places of its tokens and never looks at them. So if all places are moved by
some function, whatever it is, the same steps are taken, and the outcome is the one from before with
its places moved (`Configuration.step_relocate`, `Parser.finishAll_relocate`). Nor do the expressions
that are done have a part in what is read behind them (`Parser.finishAll_before`).
-/

set_option autoImplicit false

namespace SmallLisp

section
variable (f : Position → Position)

/-! ## Moving places -/

def Token.relocate (t : Token) : Token := ⟨t.lexeme, f t.position⟩

def LexicalError.relocate (e : LexicalError) : LexicalError := ⟨e.fault, f e.position⟩

def SyntaxError.relocate (e : SyntaxError) : SyntaxError := { e with found := e.found.relocate f }

def ParseError.relocate : ParseError → ParseError
  | lexical e => lexical (e.relocate f)
  | grammar e => grammar (e.relocate f)

/-- What a call of the scanner has found, at another place. -/
def Cursor.relocateFound : Scanned → Scanned
  | .ok t => .ok (t.relocate f)
  | .error e => .error (e.relocate f)

namespace Expr

mutual

def relocate : Expr → Expr
  | literal l pos => literal l (f pos)
  | name x pos => name x (f pos)
  | unit pos => unit (f pos)
  | call callee args pos => call callee (relocateAll args) (f pos)
  | function params body pos => function params body.relocate (f pos)
  | ifThen cond yes pos => ifThen cond.relocate yes.relocate (f pos)
  | ifThenElse cond yes no pos => ifThenElse cond.relocate yes.relocate no.relocate (f pos)
  | declare x pos => declare x (f pos)
  | declareAs x init pos => declareAs x init.relocate (f pos)
  | assign x value pos => assign x value.relocate (f pos)
  | whileLoop cond body pos => whileLoop cond.relocate body.relocate (f pos)
  | forLoop init cond post body pos =>
    forLoop init.relocate cond.relocate post.relocate body.relocate (f pos)

def relocateAll : List Expr → List Expr
  | [] => []
  | e :: es => e.relocate :: relocateAll es

end

@[simp] theorem relocateAll_eq_map (es : List Expr) : relocateAll f es = es.map (relocate f) := by
  induction es with
  | nil => rfl
  | cons e es ih => rw [relocateAll, ih, List.map_cons]

end Expr

/-- Some parameters with their places moved. -/
abbrev relocateParams (params : List (String × Position)) : List (String × Position) :=
  params.map (Prod.map id f)

def Context.relocate : Context → Context
  | argument callee before pos => argument callee (before.map (·.relocate f)) (f pos)
  | functionBody params pos => functionBody (relocateParams f params) (f pos)
  | ifCondition pos => ifCondition (f pos)
  | ifBranch cond pos => ifBranch (cond.relocate f) (f pos)
  | ifAlternative cond yes pos => ifAlternative (cond.relocate f) (yes.relocate f) (f pos)
  | initializer x pos => initializer x (f pos)
  | assigned x pos => assigned x (f pos)
  | whileCondition pos => whileCondition (f pos)
  | whileBody cond pos => whileBody (cond.relocate f) (f pos)
  | forInit pos => forInit (f pos)
  | forCondition init pos => forCondition (init.relocate f) (f pos)
  | forPost init cond pos => forPost (init.relocate f) (cond.relocate f) (f pos)
  | forBody init cond post pos =>
    forBody (init.relocate f) (cond.relocate f) (post.relocate f) (f pos)

def Focus.relocate : Focus → Focus
  | operand expected => operand expected
  | head pos => head (f pos)
  | argument callee before pos => argument callee (before.map (·.relocate f)) (f pos)
  | parameter params pos => parameter (relocateParams f params) (f pos)
  | binder form pos => binder form (f pos)
  | initializer x pos => initializer x (f pos)
  | alternative cond yes pos => alternative (cond.relocate f) (yes.relocate f) (f pos)
  | closing e expected note => closing (e.relocate f) expected note

def Configuration.relocate (c : Configuration) : Configuration :=
  ⟨c.focus.relocate f, c.outer.map (·.relocate f)⟩

def Progress.relocate : Progress → Progress
  | reading c => reading (c.relocate f)
  | done e => done (e.relocate f)

/-! ## A step -/

@[simp] theorem Token.isEof_relocate (t : Token) : (t.relocate f).isEof = t.isEof := rfl

theorem names_relocateParams (params : List (String × Position)) :
    names (relocateParams f params) = names params := by
  simp [names, Function.comp_def]

theorem Context.resume_relocate (ctx : Context) (e : Expr) (outer : List Context) :
    (ctx.relocate f).resume (e.relocate f) (outer.map (·.relocate f)) =
      (ctx.resume e outer).relocate f := by
  cases ctx with
  | functionBody params pos =>
    simp only [relocate, resume, names_relocateParams]
    rfl
  | _ => rfl

theorem Progress.complete_relocate (e : Expr) (outer : List Context) :
    complete (e.relocate f) (outer.map (·.relocate f)) = (complete e outer).relocate f := by
  cases outer with
  | nil => rfl
  | cons ctx outer => exact congrArg reading (ctx.resume_relocate f e outer)

theorem Expr.ofToken?_relocate (t : Token) :
    ofToken? (t.relocate f) = (ofToken? t).map (·.relocate f) := by
  obtain ⟨x, pos⟩ := t
  cases x with
  | keyword k => cases k <;> rfl
  | _ => rfl

namespace Configuration

theorem enter_relocate (outer : List Context) (t : Token) :
    enter (outer.map (·.relocate f)) (t.relocate f) = (enter outer t).map (·.relocate f) := by
  by_cases ht : t.lexeme = .punct .openParen
  · have ht' : (t.relocate f).lexeme = .punct .openParen := ht
    rw [enter, enter, if_pos ht, if_pos ht']
    rfl
  · have ht' : (t.relocate f).lexeme ≠ .punct .openParen := ht
    rw [enter, enter, if_neg ht, if_neg ht', Expr.ofToken?_relocate, Option.map_map, Option.map_map]
    exact congrArg (Option.map · _) (funext fun e => Progress.complete_relocate f e outer)

theorem enterForm_relocate (opened : Position) (outer : List Context) (t : Token) :
    enterForm (f opened) (outer.map (·.relocate f)) (t.relocate f) =
      (enterForm opened outer t).map (·.relocate f) := by
  obtain ⟨x, pos⟩ := t
  cases x with
  | punct p =>
    cases p with
    | closeParen => exact congrArg some (Progress.complete_relocate f (.unit opened) outer)
    | _ => rfl
  | keyword k => cases k <;> rfl
  | _ => rfl

theorem closeOr_relocate (e : Expr) (ctx : Context) (outer : List Context) (t : Token) :
    closeOr (e.relocate f) (ctx.relocate f) (outer.map (·.relocate f)) (t.relocate f) =
      (closeOr e ctx outer t).map (·.relocate f) := by
  unfold closeOr
  by_cases ht : t.lexeme = .punct .closeParen
  · have ht' : (t.relocate f).lexeme = .punct .closeParen := ht
    rw [if_pos ht, if_pos ht', Progress.complete_relocate]
    rfl
  · have ht' : (t.relocate f).lexeme ≠ .punct .closeParen := ht
    rw [if_neg ht, if_neg ht', ← enter_relocate, List.map_cons]

/-- Where a token leads does not depend on the places: they are passed on. -/
theorem step_relocate (c : Configuration) (t : Token) :
    (c.relocate f).step (t.relocate f) = (c.step t).map (·.relocate f) := by
  obtain ⟨focus, outer⟩ := c
  cases focus with
  | operand expected => exact enter_relocate f outer t
  | head pos => exact enterForm_relocate f pos outer t
  | argument callee before pos =>
    have h := closeOr_relocate f (.call callee before.reverse pos) (.argument callee before pos) outer t
    rw [Expr.relocate, Expr.relocateAll_eq_map, List.map_reverse] at h
    exact h
  | parameter params pos =>
    obtain ⟨y, ypos⟩ := t
    by_cases hx : ∃ x, y = .ident x
    · obtain ⟨x, rfl⟩ := hx
      cases params <;> rfl
    have hx : ∀ x, y ≠ .ident x := fun x h => hx ⟨x, h⟩
    by_cases hc : y = .punct .closeParen
    · subst hc
      cases params with
      | nil => rfl
      | cons x params =>
        refine congrArg some (.trans ?_ (Progress.complete_relocate f _ outer))
        rw [← names_relocateParams f params]
        rfl
    · rw [step_parameter_other hc hx]
      have h := enter_relocate f (.functionBody params pos :: outer) ⟨y, ypos⟩
      rw [← h]
      exact step_parameter_other (t := ⟨y, f ypos⟩) hc hx _ _ _
  | binder form pos =>
    obtain ⟨x, xpos⟩ := t
    cases x <;> cases form <;> rfl
  | initializer x pos => exact closeOr_relocate f (.declare x pos) (.initializer x pos) outer t
  | alternative cond yes pos =>
    exact closeOr_relocate f (.ifThen cond yes pos) (.ifAlternative cond yes pos) outer t
  | closing e expected note =>
    by_cases hc : t.lexeme = .punct .closeParen
    · have hc' : (t.relocate f).lexeme = .punct .closeParen := hc
      simp only [step, relocate, Focus.relocate, if_pos hc, if_pos hc', Progress.complete_relocate]
      rfl
    · have hc' : (t.relocate f).lexeme ≠ .punct .closeParen := hc
      simp only [step, relocate, Focus.relocate, if_neg hc, if_neg hc']
      rfl

end Configuration

theorem Focus.refusal_relocate (focus : Focus) (t : Token) :
    (focus.relocate f).refusal (t.relocate f) = (focus.refusal t).relocate f := by
  cases focus with
  | binder form pos => cases form <;> rfl
  | _ => rfl

end

/-! ## A run -/

/-- An outcome of reading with its places moved. -/
def relocateOutcome (f : Position → Position) :
    Except ParseError (List Expr) → Except ParseError (List Expr)
  | .ok es => .ok (es.map (·.relocate f))
  | .error e => .error (e.relocate f)

namespace Parser

theorem refuse_relocate (f : Position → Position) (focus : Focus) (t : Token)
    (ahead ahead' : List Scanned) (eof eof' : Token) :
    (refuse (focus.relocate f) (t.relocate f) ahead' eof').1 =
      relocateOutcome f (refuse focus t ahead eof).1 := by
  simp only [refuse, Focus.refusal_relocate]
  rfl

/-- What is read does not depend on the places of what the scanner finds: they are passed on. -/
theorem finishAll_relocate (f : Position → Position) (eof : Token) :
    ∀ (found : List Scanned) (before : List Expr) (current : Option Configuration),
      (finishAll (eof.relocate f) (before.map (·.relocate f)) (current.map (·.relocate f))
        (found.map (Cursor.relocateFound f))).1 =
          relocateOutcome f (finishAll eof before current found).1
  | [], before, none => by simp [finishAll, relocateOutcome]
  | [], before, some c => refuse_relocate f c.focus eof _ _ _ _
  | .error e :: found, before, current => rfl
  | .ok t :: found, before, current => by
    by_cases hend : current.isNone ∧ t.isEof
    · simp [finishAll, Cursor.relocateFound, hend, relocateOutcome]
    have hend' : ¬ ((current.map (·.relocate f)).isNone ∧ (t.relocate f).isEof) := by
      rwa [Option.isNone_map, t.isEof_relocate f]
    have hc : (current.map (·.relocate f)).getD (.start "expression") =
        (current.getD (.start "expression")).relocate f := by
      cases current <;> rfl
    have hs := (current.getD (.start "expression")).step_relocate f t
    rw [List.map_cons, Cursor.relocateFound, finishAll, finishAll]
    simp only [if_neg hend, if_neg hend', hc, hs]
    cases (current.getD (.start "expression")).step t with
    | none => exact refuse_relocate f _ t _ _ _ _
    | some p =>
      cases p with
      | done e => exact finishAll_relocate f eof found (e :: before) none
      | reading c => exact finishAll_relocate f eof found before (some c)

/-- What is read behind some expressions does not depend on them. -/
theorem finishAll_before (eof : Token) (es : List Expr) :
    ∀ (found : List Scanned) (before : List Expr) (current : Option Configuration),
      (finishAll eof (before ++ es) current found).1 =
        (finishAll eof before current found).1.map (es.reverse ++ ·)
  | [], before, none => by simp [finishAll, Except.map]
  | [], before, some c => rfl
  | .error e :: found, before, current => rfl
  | .ok t :: found, before, current => by
    by_cases hend : current.isNone ∧ t.isEof
    · simp [finishAll, hend, Except.map]
    rw [finishAll, finishAll]
    simp only [if_neg hend]
    cases (current.getD (.start "expression")).step t with
    | none => rfl
    | some p =>
      cases p with
      | done e => exact finishAll_before eof es found (e :: before) none
      | reading c => exact finishAll_before eof es found before (some c)

end Parser

end SmallLisp

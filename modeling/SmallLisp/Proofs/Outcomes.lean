import SmallLisp.CommandLine
import SmallLisp.Proofs.Limits

/-!
# What the command comes to

A command that finds no program says so. Otherwise `CommandLine.Given` tells the program and what is
left to read, and the command ends at the first stage that it does not get past: the program was only
to be checked, or has been run and has returned, failed, or been interrupted (`CommandLine.Ending`). There
are no other ways to go (`CommandLine.runWith_cases`, `CommandLine.ending_executed`). Main statement:
`CommandLine.runWith_outcome`, whatever the limits of the run and whatever draws the pictures.
-/

set_option autoImplicit false

namespace SmallLisp

/-! ## What is written to the standard error -/

theorem Text.ofString_ne_nil {s : String} (h : s ≠ "") : Text.ofString s ≠ [] := by
  rw [Text.ofString, Text.ofChars, Ne, List.map_eq_nil_iff, String.toList_eq_nil_iff]
  exact h

namespace Report

/-- A report with an issue complains. -/
theorem complaint_ne_empty (draw : Drawing) {r : Report} (h : r.issues ≠ []) :
    r.complaint draw ≠ "" := by
  have hok : r.ok = false := by simpa [ok] using h
  intro hempty
  have := congrArg String.toList hempty
  simp [complaint, hok, List.replicate] at this

theorem issues_evaluationError (r : Report) (kind : FaultKind) (message : String)
    (position : Option Position) : (r.evaluationError kind message position).issues ≠ [] := by
  simp [evaluationError, aborted, add]

theorem issues_overflow (r : Report) : r.overflow.issues ≠ [] := by simp [overflow, add]

theorem issues_parseError (r : Report) (e : ParseError) : (r.parseError e).issues ≠ [] := by
  cases e <;> simp [parseError, lexicalError, syntaxError, aborted, add]

/-- Nothing is said unless the run is a verbose one. -/
theorem info_quiet {r : Report} (h : r.verbose = 0) (words : List Text) : r.info words = [] := by
  simp [info, h]

end Report

namespace CommandLine

variable {o : Options} {w : Surroundings}

/-! ## Programs -/

/-- The options name this program text, and this is then left to read: nothing behind a program from the
standard input, which must be readable to its end, and all of the standard input otherwise. In a file,
other line ends count as newlines. -/
inductive Supplies (o : Options) (w : Surroundings) : List Char → Stream → Prop
  | input (h : o.program = "-") (hwhole : w.input.error = none) :
      Supplies o w w.input.text { text := [] }
  | file {directory : String} {text : List Char} (h : o.program ≠ "-")
      (hhere : w.directory = .ok directory) (hread : w.read o.program = .ok text) :
      Supplies o w (withNewlines text) w.input

theorem Supplies.unique {text text' : List Char} {input input' : Stream}
    (h : Supplies o w text input) (h' : Supplies o w text' input') :
    text = text' ∧ input = input' := by
  cases h with
  | input h =>
    cases h' with
    | input => exact ⟨rfl, rfl⟩
    | file h' => exact absurd h h'
  | file h _ hread =>
    cases h' with
    | input h' => exact absurd h' h
    | file _ _ hread' =>
      cases hread.symm.trans hread'
      exact ⟨rfl, rfl⟩

/-- The options name a text that is this program, and this is then left to read. -/
def Given (o : Options) (w : Surroundings) (p : Program) (input : Stream) : Prop :=
  ∃ text, Supplies o w text input ∧ Program.parse text = .ok p

theorem Given.unique {p p' : Program} {input input' : Stream} (h : Given o w p input)
    (h' : Given o w p' input') : p = p' ∧ input = input' := by
  obtain ⟨text, hs, hp⟩ := h
  obtain ⟨text', hs', hp'⟩ := h'
  obtain ⟨rfl, rfl⟩ := hs.unique hs'
  cases hp.symm.trans hp'
  exact ⟨rfl, rfl⟩

theorem Given.exists_iff {p : Program} {input : Stream} (h : Given o w p input)
    {Q : Program → Stream → Prop} :
    (∃ p' input', Given o w p' input' ∧ Q p' input') ↔ Q p input := by
  refine ⟨?_, fun hq => ⟨p, input, h, hq⟩⟩
  rintro ⟨p', input', h', hq⟩
  obtain ⟨rfl, rfl⟩ := h.unique h'
  exact hq

/-- What the source of a program comes to. -/
theorem source_cases (o : Options) (w : Surroundings) (r : Report) :
    (∃ text input, (source o w r).1 = .ok (text, input) ∧ Supplies o w text input) ∨
      ∃ e, (source o w r).1 = .error e ∧ ∀ text input, ¬ Supplies o w text input := by
  by_cases h : o.program = "-"
  · rw [source, if_pos h, Stream.contents]
    cases herror : w.input.error with
    | none => exact .inl ⟨_, _, rfl, .input h herror⟩
    | some e =>
      refine .inr ⟨e, rfl, fun text input hs => ?_⟩
      cases hs with
      | input _ hwhole => cases herror.symm.trans hwhole
      | file h' => exact h' h
  · rw [source, if_neg h]
    cases hhere : w.directory with
    | error e =>
      refine .inr ⟨e, rfl, fun text input hs => ?_⟩
      cases hs with
      | input h' => exact h h'
      | file _ hhere' => cases hhere.symm.trans hhere'
    | ok directory =>
      cases hread : w.read o.program with
      | ok text => exact .inl ⟨_, _, rfl, .file h hhere hread⟩
      | error e =>
        refine .inr ⟨e, rfl, fun text input hs => ?_⟩
        cases hs with
        | input h' => exact h h'
        | file _ _ hread' => cases hread.symm.trans hread'

/-! ## What is said and shown before a run -/

/-- What is shown of a program before anything is done with it. -/
def preview (o : Options) (p : Program) : Text :=
  if o.ast then Text.ofString (p.outline ++ "\n") else []

/-- What a verbose command says about the file that it reads. -/
def sought (o : Options) (w : Surroundings) (r : Report) : Text :=
  match w.directory with
  | .ok directory =>
    if o.program = "-" then []
    else r.info [Text.ofString "Reading", Text.ofString (resolve directory o.program)]
  | .error _ => []

/-- What a verbose command says before it does anything with the program. -/
def announced (o : Options) (w : Surroundings) (p : Program) : Text :=
  let report : Report := { verbose := o.verbose }
  let count := "Parsed " ++ decimal p.exprs.length ++ " top-level expression(s)."
  sought o w report ++ report.info [Text.ofString count]

theorem source_snd (o : Options) (w : Surroundings) (r : Report) :
    (source o w r).2 = sought o w r := by
  rw [source, sought]
  cases w.directory <;> by_cases h : o.program = "-" <;> simp [h]

theorem announced_quiet (h : o.verbose = 0) (w : Surroundings) (p : Program) :
    announced o w p = [] := by
  have hinfo : ∀ words, ({ verbose := o.verbose } : Report).info words = [] := Report.info_quiet h
  rw [announced, sought]
  cases w.directory <;> simp [hinfo]

/-! ## Runs -/

/-- The run that the command makes of a program. -/
def outcomeOf (limits : Limits) (p : Program) (input : Stream) : SmallLisp.Outcome Value :=
  p.run limits (Program.freshMachine (Text.ofChars input.inLines))

/-- A run that fails so, with this left to read, interrupts the command. -/
inductive Interrupts (input : Stream) : Failure → Interruption → Prop
  | unencodable : Interrupts input .unencodable .unencodable
  | unreadable {e : EvalError} {why : OpenError} (hkind : e.kind = .endOfInput)
      (herror : input.error = some why) : Interrupts input (.error e) (.unreadable why)

theorem Interrupts.unique {input : Stream} {failure : Failure} {i i' : Interruption}
    (h : Interrupts input failure i) (h' : Interrupts input failure i') : i = i' := by
  cases h with
  | unencodable =>
    cases h'
    rfl
  | unreadable _ herror =>
    cases h' with
    | unreadable _ herror' =>
      cases herror.symm.trans herror'
      rfl

/-- A failed run is complained of, or it interrupts the command. -/
theorem account_cases (r : Report) (input : Stream) (failure : Failure) :
    (∃ r' : Report, account r input failure = .ok r' ∧ r'.issues ≠ [] ∧
      ∀ i, ¬ Interrupts input failure i) ∨
    ∃ i, account r input failure = .error i ∧ Interrupts input failure i := by
  cases failure with
  | unencodable => exact .inr ⟨_, rfl, .unencodable⟩
  | exhausted => exact .inl ⟨_, rfl, r.issues_overflow, by rintro i ⟨⟩⟩
  | error e =>
    rw [account]
    split
    · next why hkind herror => exact .inr ⟨_, rfl, .unreadable hkind herror⟩
    · next hother =>
      refine .inl ⟨_, rfl, r.issues_evaluationError _ _ _, fun i hi => ?_⟩
      cases hi with
      | unreadable hkind herror => exact hother _ hkind herror

/-- The ends that a command may come to with this program and this left to read. -/
inductive Ending (limits : Limits) (o : Options) (w : Surroundings) (p : Program)
    (input : Stream) : Outcome → Prop
  /-- The program was not to be run. -/
  | checked (hcheck : o.check = true) : Ending limits o w p input
      ⟨.code 0, preview o p, announced o w p ++ Text.ofString "Looks plausible to me.\n", false⟩
  /-- The run has returned a value. -/
  | returned {v : Value} {m : Machine} {stderr : Text} (hcheck : o.check = false)
      (hrun : outcomeOf limits p input = .ok v m) (hstderr : o.verbose = 0 → stderr = []) :
      Ending limits o w p input ⟨.code 0, preview o p ++ m.console.written, stderr, false⟩
  /-- The run has failed, and somebody complains. -/
  | failed {failure : Failure} {m : Machine} {stderr : Text} (hcheck : o.check = false)
      (hrun : outcomeOf limits p input = .error failure m)
      (hanswered : ∀ i, ¬ Interrupts input failure i) (hstderr : stderr ≠ []) :
      Ending limits o w p input
        ⟨.code 1, preview o p ++ m.console.written, stderr, failure.isStarved⟩
  /-- The run has failed in a way that nobody complains of. -/
  | interrupted {failure : Failure} {m : Machine} {stderr : Text} {i : Interruption}
      (hcheck : o.check = false) (hrun : outcomeOf limits p input = .error failure m)
      (hi : Interrupts input failure i) : Ending limits o w p input
        ⟨.interrupted i, preview o p ++ m.console.written, stderr, failure.isStarved⟩

/-- What a command comes to that executes this program, read from this text. -/
def executed (limits : Limits) (draw : Drawing) (o : Options) (w : Surroundings) (text : List Char)
    (p : Program) (input : Stream) : Outcome :=
  let report : Report := { verbose := o.verbose }
  let outcome := execute limits draw o (report.setSource text) p input
  { outcome with stderr := sought o w report ++ outcome.stderr }

/-- A program that was read is checked, or its run returns, fails, or is interrupted. -/
theorem ending_executed (limits : Limits) (draw : Drawing) (o : Options) (w : Surroundings)
    (text : List Char) (p : Program) (input : Stream) :
    Ending limits o w p input (executed limits draw o w text p input) := by
  let report : Report := { verbose := o.verbose }
  have hannounced : announced o w p = sought o w report ++ report.info
      [Text.ofString ("Parsed " ++ decimal p.exprs.length ++ " top-level expression(s).")] := rfl
  cases hcheck : o.check with
  | true =>
    have houtcome : executed limits draw o w text p input = ⟨.code 0, preview o p,
        announced o w p ++ Text.ofString "Looks plausible to me.\n", false⟩ := by
      simp only [executed, execute, hcheck, if_true, hannounced, List.append_assoc]
      rfl
    rw [houtcome]
    exact .checked hcheck
  | false =>
    cases hrun : outcomeOf limits p input with
    | ok v m =>
      let result := report.info [Text.ofString "Result:", v.describe]
      have houtcome : executed limits draw o w text p input =
          ⟨.code 0, preview o p ++ m.console.written, announced o w p ++ result, false⟩ := by
        rw [outcomeOf] at hrun
        simp only [executed, execute, hcheck, hrun, hannounced, List.append_assoc]
        rfl
      rw [houtcome]
      refine .returned hcheck hrun fun hquiet => ?_
      have hresult : result = [] := Report.info_quiet hquiet _
      rw [announced_quiet hquiet, hresult, List.append_nil]
    | error failure m =>
      rcases account_cases (report.setSource text) input failure with
        ⟨r, haccount, hissues, hanswered⟩ | ⟨i, haccount, hi⟩
      · have houtcome : executed limits draw o w text p input =
            ⟨.code 1, preview o p ++ m.console.written,
              announced o w p ++ Text.ofString (r.complaint draw), failure.isStarved⟩ := by
          rw [outcomeOf] at hrun
          simp only [executed, execute, hcheck, hrun, haccount, hannounced, report,
            List.append_assoc]
          rfl
        rw [houtcome]
        refine .failed hcheck hrun hanswered (List.append_ne_nil_of_right_ne_nil _ ?_)
        exact Text.ofString_ne_nil (Report.complaint_ne_empty draw hissues)
      · have houtcome : executed limits draw o w text p input = ⟨.interrupted i,
            preview o p ++ m.console.written, announced o w p, failure.isStarved⟩ := by
          rw [outcomeOf] at hrun
          simp only [executed, execute, hcheck, hrun, haccount, hannounced, report]
          rfl
        rw [houtcome]
        exact .interrupted hcheck hrun hi

/-- There is a program at hand, which is executed, or the command complains that there is none, however
far a run of it might have gone. -/
theorem runWith_cases (draw : Drawing) (o : Options) (w : Surroundings) :
    (∃ p input, Given o w p input ∧ ∃ text, ∀ limits : Limits,
      runWith limits draw o w = executed limits draw o w text p input) ∨
    (∀ p input, ¬ Given o w p input) ∧ ∃ stderr, stderr ≠ [] ∧ ∀ limits : Limits,
      runWith limits draw o w = ⟨.code 1, [], stderr, false⟩ := by
  let report : Report := { verbose := o.verbose }
  cases hsource : source o w report with
  | mk found said =>
    have hsaid : said = sought o w report := by rw [← source_snd, hsource]
    have hcases := source_cases o w report
    rw [hsource] at hcases
    rcases hcases with ⟨text, input, rfl, h⟩ | ⟨e, rfl, h⟩
    · cases hparse : Program.parse text with
      | ok p =>
        refine .inl ⟨p, input, ⟨text, h, hparse⟩, text, fun limits => ?_⟩
        simp only [runWith, executed, report, hsource, Report.parse, hparse, hsaid]
      | error e =>
        let complaint := ((report.setSource text).parseError e).complaint draw
        refine .inr ⟨?_, said ++ Text.ofString complaint, ?_, fun limits => ?_⟩
        · rintro p input' ⟨text', h', hp⟩
          obtain ⟨rfl, -⟩ := h.unique h'
          cases hparse.symm.trans hp
        · have hissues := Report.issues_parseError (report.setSource text) e
          refine List.append_ne_nil_of_right_ne_nil _ (Text.ofString_ne_nil ?_)
          exact Report.complaint_ne_empty draw hissues
        · simp only [runWith, report, hsource, Report.parse, hparse]
          rfl
    · let complaint :=
        "Could not open file for reading " ++ o.program ++ ": " ++ e.message ++ "\n"
      refine .inr ⟨?_, said ++ Text.ofString complaint, ?_, fun limits => ?_⟩
      · rintro p input ⟨text, hs, -⟩
        exact h text input hs
      · refine List.append_ne_nil_of_right_ne_nil _ (Text.ofString_ne_nil fun hempty => ?_)
        have := congrArg String.length hempty
        simp [complaint] at this
      · simp only [runWith, report, hsource]
        rfl

/-- Within limits that its run does not go beyond, a command comes to what it comes to within any higher
ones. -/
theorem runWith_of_le {limits limits' : Limits} (hdepth : limits.depth ≤ limits'.depth)
    (hrounds : limits.rounds ≤ limits'.rounds) (draw : Drawing) (o : Options) (w : Surroundings)
    (hrun : ∀ p input, Given o w p input → ¬ (outcomeOf limits p input).GivesUp) :
    runWith limits' draw o w = runWith limits draw o w := by
  rcases runWith_cases draw o w with ⟨p, input, hgiven, text, hexecuted⟩ | ⟨-, stderr, -, hno⟩
  · have hsame := Program.run_of_le hdepth hrounds (hrun p input hgiven)
    simp only [hexecuted, executed, execute, hsame]
  · rw [hno, hno]

/-! ## What each end tells -/

namespace Ending

variable {limits : Limits} {p : Program} {input : Stream} {outcome : Outcome}
  (h : Ending limits o w p input outcome)
include h

theorem exit_eq_zero_iff : outcome.exit = .code 0 ↔
    o.check = true ∨ ∃ v m, outcomeOf limits p input = .ok v m := by
  cases h with
  | checked hcheck => exact iff_of_true rfl (.inl hcheck)
  | returned _ hrun => exact iff_of_true rfl (.inr ⟨_, _, hrun⟩)
  | failed hcheck hrun | interrupted hcheck hrun => simp [hcheck, hrun]

theorem exit_eq_interrupted_iff (i : Interruption) : outcome.exit = .interrupted i ↔
    o.check = false ∧
      ∃ failure m, outcomeOf limits p input = .error failure m ∧ Interrupts input failure i := by
  cases h with
  | checked hcheck => simp [hcheck]
  | returned _ hrun => simp [hrun]
  | failed _ hrun hanswered =>
    refine iff_of_false (by simp) ?_
    rintro ⟨-, failure, m, hrun', hi⟩
    cases hrun.symm.trans hrun'
    exact hanswered i hi
  | interrupted hcheck hrun hi =>
    constructor
    · rintro ⟨⟩
      exact ⟨hcheck, _, _, hrun, hi⟩
    · rintro ⟨-, failure, m, hrun', hi'⟩
      cases hrun.symm.trans hrun'
      rw [hi.unique hi']

theorem exit_cases :
    outcome.exit = .code 0 ∨ outcome.exit = .code 1 ∨ ∃ i, outcome.exit = .interrupted i := by
  cases h with
  | checked | returned => exact .inl rfl
  | failed => exact .inr (.inl rfl)
  | interrupted => exact .inr (.inr ⟨_, rfl⟩)

theorem eq_of_check (hcheck : o.check = true) : outcome = ⟨.code 0, preview o p,
    announced o w p ++ Text.ofString "Looks plausible to me.\n", false⟩ := by
  cases h with
  | checked => rfl
  | returned hnot | failed hnot | interrupted hnot => simp [hcheck] at hnot

/-- Whatever ends the run, what it has written until then is what is shown. -/
theorem stdout_of_run (hcheck : o.check = false) {m : Machine}
    (hrun : (∃ v, outcomeOf limits p input = .ok v m) ∨
      ∃ failure, outcomeOf limits p input = .error failure m) :
    outcome.stdout = preview o p ++ m.console.written := by
  cases h with
  | checked hyes => simp [hcheck] at hyes
  | returned _ hrun' | failed _ hrun' | interrupted _ hrun' =>
    rcases hrun with ⟨v, hrun⟩ | ⟨failure, hrun⟩ <;> cases hrun.symm.trans hrun'
    rfl

theorem stderr_ne_nil (hexit : outcome.exit = .code 1) : outcome.stderr ≠ [] := by
  cases h with
  | failed _ _ _ hstderr => exact hstderr
  | checked | returned | interrupted => simp at hexit

theorem stderr_eq_nil (hexit : outcome.exit = .code 0) (hquiet : o.verbose = 0)
    (hcheck : o.check = false) : outcome.stderr = [] := by
  cases h with
  | checked hyes => simp [hcheck] at hyes
  | returned _ _ hstderr => exact hstderr hquiet
  | failed | interrupted => simp at hexit

end Ending

/-- **What a command answers and writes.** It answers zero exactly if its text can be read, is a program,
and either was only to be checked or has a run that returns; it is interrupted exactly if a run compares
a string with a surrogate or asks for a line that cannot be read; and otherwise it answers one. If there
is no program it writes nothing to the standard output. Of a program it writes the outline there, if
asked for, and behind it what the run has written, up to its return or to its failure; of one that was
only to be checked nothing else, and the outcome is told without a run. To the standard error it writes
something whenever it answers one, and nothing when it answers zero after a run that was no verbose
one. -/
theorem runWith_outcome (limits : Limits) (draw : Drawing) (o : Options) (w : Surroundings) :
    let outcome := runWith limits draw o w
    (outcome.exit = .code 0 ↔ ∃ p input, Given o w p input ∧
      (o.check = true ∨ ∃ v m, outcomeOf limits p input = .ok v m)) ∧
    (∀ i, outcome.exit = .interrupted i ↔ ∃ p input, Given o w p input ∧ o.check = false ∧
      ∃ failure m, outcomeOf limits p input = .error failure m ∧ Interrupts input failure i) ∧
    (outcome.exit = .code 0 ∨ outcome.exit = .code 1 ∨ ∃ i, outcome.exit = .interrupted i) ∧
    ((∀ p input, ¬ Given o w p input) → outcome.stdout = []) ∧
    (∀ p input, Given o w p input →
      (o.check = true → outcome = ⟨.code 0, preview o p,
        announced o w p ++ Text.ofString "Looks plausible to me.\n", false⟩) ∧
      (o.check = false →
        (∀ v m, outcomeOf limits p input = .ok v m →
          outcome.stdout = preview o p ++ m.console.written) ∧
        ∀ failure m, outcomeOf limits p input = .error failure m →
          outcome.stdout = preview o p ++ m.console.written)) ∧
    (outcome.exit = .code 1 → outcome.stderr ≠ []) ∧
    (outcome.exit = .code 0 → o.verbose = 0 → o.check = false → outcome.stderr = []) := by
  intro outcome
  rcases runWith_cases draw o w with ⟨p, input, hgiven, text, hrun⟩ | ⟨hno, stderr, hne, hrun⟩
  · have hend : Ending limits o w p input outcome := by
      rw [show outcome = _ from hrun limits]
      exact ending_executed limits draw o w text p input
    refine ⟨?_, fun i => ?_, hend.exit_cases, fun hno => absurd hgiven (hno p input), ?_,
      hend.stderr_ne_nil, hend.stderr_eq_nil⟩
    · rw [hgiven.exists_iff, hend.exit_eq_zero_iff]
    · rw [hgiven.exists_iff, hend.exit_eq_interrupted_iff]
    · intro p' input' hgiven'
      obtain ⟨rfl, rfl⟩ := hgiven.unique hgiven'
      refine ⟨hend.eq_of_check, fun hcheck => ⟨fun v m hok => ?_, fun failure m herror => ?_⟩⟩
      · exact hend.stdout_of_run hcheck (.inl ⟨v, hok⟩)
      · exact hend.stdout_of_run hcheck (.inr ⟨failure, herror⟩)
  · have houtcome : outcome = ⟨.code 1, [], stderr, false⟩ := hrun limits
    rw [houtcome]
    refine ⟨iff_of_false (by simp) ?_, fun i => iff_of_false (by simp) ?_, .inr (.inl rfl),
      fun _ => rfl, fun p input h => absurd h (hno p input), fun _ => hne,
      fun hzero => by simp at hzero⟩
    · rintro ⟨p, input, h, -⟩
      exact hno p input h
    · rintro ⟨p, input, h, -⟩
      exact hno p input h

/-- A run that fails after it has written a line. -/
theorem runWith_outcome_partial_output :
    let text := "(println 1) y".toList
    let limits : Limits := ⟨9, 9⟩
    let draw : Drawing := fun _ _ caption => caption
    let o : Options := { program := "p", ast := true }
    let w : Surroundings := ⟨.ok "/", fun _ => .ok text, { text := [] }, false⟩
    ∃ p e m, Given o w p { text := [] } ∧
      outcomeOf limits p { text := [] } = .error (.error e) m ∧ e.fault = .noVariable "y" ∧
      (runWith limits draw o w).exit = .code 1 ∧
      (runWith limits draw o w).stdout = Text.ofString (p.outline ++ "\n") ++ Text.ofString "1\n" ∧
      (runWith limits draw o w).stderr ≠ [] := by
  intro text limits draw o w
  have hsupplies : Supplies o w (withNewlines text) { text := [] } := .file (by decide) rfl rfl
  -- for any program here, so that nothing is evaluated
  have hfailed : ∀ p e m, Program.parse text = .ok p →
      outcomeOf limits p { text := [] } = .error (.error e) m → e.kind ≠ .endOfInput →
      Given o w p { text := [] } ∧ (runWith limits draw o w).exit = .code 1 ∧
        (runWith limits draw o w).stdout = preview o p ++ m.console.written ∧
        (runWith limits draw o w).stderr ≠ [] := by
    intro p e m hparse hrun hkind
    have hgiven : Given o w p { text := [] } := ⟨_, hsupplies, hparse⟩
    obtain ⟨hzero, hinterrupted, hexit, -, hparsed, hstderr, -⟩ :=
      runWith_outcome limits draw o w
    have hone : (runWith limits draw o w).exit = .code 1 := by
      rcases hexit with h | h | ⟨i, h⟩
      · rw [hzero, hgiven.exists_iff] at h
        rcases h with hyes | ⟨v, m', hrun'⟩
        · cases hyes
        · cases hrun.symm.trans hrun'
      · exact h
      · rw [hinterrupted, hgiven.exists_iff] at h
        obtain ⟨-, failure, m', hrun', hi⟩ := h
        cases hrun.symm.trans hrun'
        cases hi with
        | unreadable hkind' => exact absurd hkind' hkind
    exact ⟨hgiven, hone, ((hparsed p _ hgiven).2 rfl).2 _ m hrun, hstderr hone⟩
  let p : Program :=
    ⟨⟨1, 1, 0⟩, [.call (.named "println") [.literal (.int 1) ⟨1, 10, 9⟩] ⟨1, 2, 1⟩,
      .name "y" ⟨1, 13, 12⟩]⟩
  have hparse : Program.parse "(println 1) y".toList = .ok p := rfl
  let m : Machine := ⟨.root .library, ⟨[], (Text.ofString "1\n").toArray⟩⟩
  have hrun : outcomeOf limits p { text := [] } =
      .error (.error ⟨.noVariable "y", some ⟨1, 13, 12⟩⟩) m := rfl
  have hpreview : preview o p = Text.ofString (p.outline ++ "\n") := if_pos rfl
  obtain ⟨hgiven, hexit, hstdout, hstderr⟩ := hfailed p _ m hparse hrun (by decide)
  rw [hpreview] at hstdout
  exact ⟨p, _, m, hgiven, hrun, rfl, hexit, hstdout, hstderr⟩

end CommandLine

end SmallLisp

import Formulary.CommandLine.Run
import Formulary.Proofs.OnDemand
import Formulary.Proofs.OpenCount
import Mathlib.Logic.Function.Iterate

/-!
# Every session ends

A session can be called again and again, also when it has nothing left to tell. A call that tells
an event moves past a token, so there are at most as many of them as tokens. The calls behind them
tell nothing and change nothing. Between two calls no expression counts as open, whatever faults
were met, so that every construct may nest as deep as the first.

* `LiveSession`, `LiveSession.call`: a session with the counter of open expressions, changed in
  place by calls.
* `LiveSession.call_of_none`, `LiveSession.call_of_some`: a call takes the next step, if there is
  one, and the counter comes back.
* `LiveSession.told_iterate`: the calls take the steps of the run.
* `session_ends`: calls make progress and come to an end, and so do the loops that make them.
-/

namespace Formulary

/-! ## Calls -/

/-- A session that calls change in place, and how many expressions count as open in it. -/
structure LiveSession where
  session : Session
  opened : Nat

namespace LiveSession

variable {table : PrecedenceTable} {s after : Session} {event : Event}

/-- Before the first call. -/
def start (config : Config) (text : List Char) : LiveSession := ⟨.start config text, 0⟩

/-- Reads the next construct and makes code for it. At the end there is nothing to tell. -/
def call (table : PrecedenceTable) (live : LiveSession) : Option Event × LiveSession :=
  let p := countConstruct table live.opened live.session.tokens
  match p.parsed.result with
  | .ok .endOfInput => (none, ⟨⟨p.parsed.rest, live.session.code⟩, p.opened⟩)
  | result =>
    let response := respond live.session.code result
    (some response.1, ⟨⟨p.parsed.resume, response.2⟩, p.opened⟩)

/-- What a call tells. -/
def told (table : PrecedenceTable) (live : LiveSession) : Option Event := (live.call table).1

/-- What a call leaves. -/
def next (table : PrecedenceTable) (live : LiveSession) : LiveSession := (live.call table).2

/-- Without a step, a call tells nothing and changes nothing. -/
theorem call_of_none (h : s.step table = none) : call table ⟨s, 0⟩ = (none, ⟨s, 0⟩) := by
  obtain ⟨tokens, code⟩ := s
  obtain rfl : tokens = [] := Session.step_eq_none_iff.mp h
  rfl

/-- A call takes the step that there is, and no expression is open behind it. -/
theorem call_of_some (h : s.step table = some (event, after)) :
    call table ⟨s, 0⟩ = (some event, ⟨after, 0⟩) := by
  obtain ⟨tokens, code⟩ := s
  have hne : tokens ≠ [] := by
    intro hnil
    rw [Session.step_eq_none_iff.mpr hnil] at h
    simp at h
  rw [Session.step_eq_respond table code hne] at h
  obtain ⟨rfl, rfl⟩ := Prod.mk.inj (Option.some.inj h)
  unfold call
  simp only [countConstruct_eq]
  split
  · next hend => exact (readConstruct_ne_end hne hend).elim
  · rfl

theorem next_of_none (h : s.step table = none) : next table ⟨s, 0⟩ = ⟨s, 0⟩ :=
  congrArg Prod.snd (call_of_none h)

theorem next_of_some (h : s.step table = some (event, after)) : next table ⟨s, 0⟩ = ⟨after, 0⟩ :=
  congrArg Prod.snd (call_of_some h)

/-- A call that tells an event moves past a token. -/
theorem tokens_of_told (h : told table ⟨s, 0⟩ = some event) :
    ∃ used, used ≠ [] ∧ s.tokens = used ++ (next table ⟨s, 0⟩).session.tokens := by
  rcases hstep : s.step table with _ | ⟨event', after⟩
  · simp [told, call_of_none hstep] at h
  · rw [next_of_some hstep]
    obtain ⟨used, hused⟩ := Session.step_suffix hstep
    refine ⟨used, ?_, hused.symm⟩
    rintro rfl
    have hlt := Session.step_length_lt hstep
    rw [← hused] at hlt
    exact Nat.lt_irrefl _ hlt

theorem step_of_told_eq_none (h : told table ⟨s, 0⟩ = none) : s.step table = none := by
  rcases hstep : s.step table with _ | ⟨event, after⟩
  · rfl
  · simp [told, call_of_some hstep] at h

/-! ## Calls again and again -/

theorem iterate_of_none (h : s.step table = none) (j : Nat) :
    (next table)^[j] ⟨s, 0⟩ = ⟨s, 0⟩ :=
  Function.iterate_fixed (next_of_none h) j

theorem iterate_succ_of_some (h : s.step table = some (event, after)) (j : Nat) :
    (next table)^[j + 1] ⟨s, 0⟩ = (next table)^[j] ⟨after, 0⟩ := by
  rw [Function.iterate_succ_apply, next_of_some h]

/-- No number of calls leaves an expression open. -/
theorem exists_iterate_eq (table : PrecedenceTable) (s : Session) (j : Nat) :
    ∃ later, (next table)^[j] ⟨s, 0⟩ = ⟨later, 0⟩ := by
  induction j generalizing s with
  | zero => exact ⟨s, rfl⟩
  | succ j ih =>
    rcases hstep : s.step table with _ | ⟨event, after⟩
    · exact ⟨s, iterate_of_none hstep (j + 1)⟩
    · rw [iterate_succ_of_some hstep]
      exact ih after

/-- The calls take the steps of the run, one after the other, and none behind the last one. -/
theorem told_iterate (table : PrecedenceTable) (s : Session) (j : Nat) :
    ((told table ((next table)^[j] ⟨s, 0⟩)).map fun event =>
      (event, ((next table)^[j + 1] ⟨s, 0⟩).session)) = (s.observe table Prod.mk).1[j]? := by
  induction s using Session.runInduction table generalizing j with
  | done s hstep =>
    rw [iterate_of_none hstep j, told, call_of_none hstep, Session.observe_of_none _ hstep]
    rfl
  | step s event after hstep ih =>
    rw [Session.observe_of_some _ hstep, iterate_succ_of_some hstep]
    cases j with
    | zero =>
      show (call table ⟨s, 0⟩).1.map _ = _
      rw [call_of_some hstep]
      rfl
    | succ j =>
      rw [iterate_succ_of_some hstep, ih j]
      rfl

theorem session_iterate_length (table : PrecedenceTable) (s : Session) :
    ((next table)^[(s.observe table Prod.mk).1.length] ⟨s, 0⟩).session =
      (s.observe table Prod.mk).2 := by
  induction s using Session.runInduction table with
  | done s hstep =>
    rw [Session.observe_of_none _ hstep]
    rfl
  | step s event after hstep ih =>
    rw [Session.observe_of_some _ hstep, List.length_cons, iterate_succ_of_some hstep]
    exact ih

end LiveSession

/-! ## Runs -/

namespace Session

theorem length_observe_le (table : PrecedenceTable) (s : Session) :
    (s.observe table Prod.mk).1.length ≤ s.tokens.length := by
  induction s using runInduction table with
  | done s hstep =>
    rw [observe_of_none _ hstep]
    exact Nat.zero_le _
  | step s event after hstep ih =>
    rw [observe_of_some _ hstep, List.length_cons]
    exact Nat.lt_of_le_of_lt ih (step_length_lt hstep)

end Session

/-- The code and faults of a text are those of the steps of its run. -/
theorem compile_eq_steps (config : Config) (text : String) :
    let run := (Session.start config text.toList).observe config.precedence Prod.mk
    compile config text = ⟨run.2.code, run.1.filterMap (·.1.error?)⟩ := by
  intro run
  rw [compile, Session.observe_eq_map]
  simp only [List.filterMap_map]
  rfl

/-- The command tells of the steps of the run and lists the code at its end, and it has asked the
    source as often as the session has asked the text. -/
theorem run_eq_steps {σ : Type} [CharSource σ] (config : Config) (quiet : Bool) (source : σ) :
    let text := CharSource.chars source
    let steps := (Session.start config text).observe config.precedence Prod.mk
    run config quiet source =
      ({ echo := String.join (steps.1.map fun step => tellStep quiet step.1 step.2.code)
         listing := steps.2.code.text
         clean := steps.1.all (·.1.error?.isNone) },
        CharSource.after source (steps.2.asked config.strictNumbers text)) := by
  intro text steps
  obtain ⟨htold, hcode, hsource⟩ := Driver.observe_start config source
    fun event code => (tellStep quiet event code, event.error?.isNone)
  rw [run]
  simp only [htold, hcode, hsource, List.map_map, List.all_map]
  rfl

theorem runText_eq_steps (config : Config) (quiet : Bool) (text : String) :
    let run := (Session.start config text.toList).observe config.precedence Prod.mk
    runText config quiet text =
      { echo := String.join (run.1.map fun step => tellStep quiet step.1 step.2.code)
        listing := run.2.code.text
        clean := run.1.all (·.1.error?.isNone) } := by
  rw [runText, run_eq_steps, CharSource.chars_list]

/-- Every session of a text makes progress and ends. A call that tells an event moves past a token,
    also where the event is a fault at the end of the text. The calls take the steps of the run in
    order, of which there are not more than tokens. Once a call has told nothing, no call tells or
    changes anything any more. Before and behind every call no expression is open. And the loops
    that compile a text and that run the command are over these steps and end with what they
    leave. -/
theorem session_ends (config : Config) (text : String) :
    let table := config.precedence
    let run := (Session.start config text.toList).observe table Prod.mk
    let live := fun j => (LiveSession.next table)^[j] (LiveSession.start config text.toList)
    (∀ j event, (live j).told table = some event →
        ∃ used, used ≠ [] ∧ (live j).session.tokens = used ++ (live (j + 1)).session.tokens) ∧
      (∀ j, ((live j).told table).map (·, (live (j + 1)).session) = run.1[j]?) ∧
      run.1.length ≤ (tokens config.strictNumbers text.toList).length ∧
      (live run.1.length).session = run.2 ∧
      (∀ i j, (live i).told table = none → i ≤ j →
        (live j).told table = none ∧ live j = live i) ∧
      (∀ j, (live j).opened = 0) ∧
      compile config text = ⟨run.2.code, run.1.filterMap (·.1.error?)⟩ ∧
      ∀ quiet, runText config quiet text =
        { echo := String.join (run.1.map fun step => tellStep quiet step.1 step.2.code)
          listing := run.2.code.text
          clean := run.1.all (·.1.error?.isNone) } := by
  intro table run live
  have hlive : ∀ j, ∃ later, live j = ⟨later, 0⟩ :=
    LiveSession.exists_iterate_eq table (Session.start config text.toList)
  have hnext : ∀ j, live (j + 1) = (live j).next table := fun j =>
    Function.iterate_succ_apply' _ j _
  refine ⟨fun j event htold => ?_, LiveSession.told_iterate table _,
    Session.length_observe_le table _, LiveSession.session_iterate_length table _,
    fun i j hnone hle => ?_, fun j => ?_, compile_eq_steps config text,
    fun quiet => runText_eq_steps config quiet text⟩
  · obtain ⟨s, hs⟩ := hlive j
    rw [hnext, hs]
    exact LiveSession.tokens_of_told (hs ▸ htold)
  · obtain ⟨s, hs⟩ := hlive i
    have hstep : s.step table = none := LiveSession.step_of_told_eq_none (hs ▸ hnone)
    have hfixed : live j = live i := by
      obtain ⟨d, rfl⟩ := Nat.exists_eq_add_of_le' hle
      calc live (d + i)
          = (LiveSession.next table)^[d] (live i) := Function.iterate_add_apply _ d i _
        _ = live i := hs ▸ LiveSession.iterate_of_none hstep d
    exact ⟨hfixed ▸ hnone, hfixed⟩
  · obtain ⟨s, hs⟩ := hlive j
    rw [hs]

end Formulary

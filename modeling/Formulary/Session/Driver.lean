import Formulary.Grammar.Parser
import Formulary.Session.Step

/-!
# Sessions that read on demand

A driver is a session that does not know its tokens in advance: it reads constructs from a source
of characters and makes code for each as soon as it is read. When the source has come to an end,
all that is left of it is in the driver.

* `Driver.step`: the next construct or fault (`Driver.step_size_lt`).
* `Driver.observe`: what a report says of each step, and the driver at its end; its steps are
  `Driver.observe_of_none` and `Driver.observe_of_some`.
-/

namespace Formulary

/-- A parser, and the code made so far. -/
structure Driver (σ : Type) where
  parser : Parser σ
  code : CodeModule

namespace Driver

variable {σ : Type} [CharSource σ]

/-- Before the first construct of a source (`new`). The first token is already in sight. -/
def start (config : Config) (source : σ) : Driver σ :=
  ⟨.start config.strictNumbers source, .empty config.moduleName⟩

/-- What is left of the source. -/
def source (d : Driver σ) : σ := d.parser.lexer.source

/-- Reads the next construct and makes code for it (`step`). At the end there is nothing to tell. -/
def step (table : PrecedenceTable) (d : Driver σ) : Option Event × Driver σ :=
  let read := d.parser.readConstruct table
  match read.result with
  | .ok .endOfInput => (none, ⟨read.parser, d.code⟩)
  | .error e => (some (.error (.parse e)), ⟨read.parser.advance, d.code⟩)
  | .ok c =>
    let (result, code) := lowerConstruct d.code c
    (some (.ofResult c result), ⟨read.parser, code⟩)

/-- A step that tells an event uses up a token. -/
theorem step_size_lt {table : PrecedenceTable} {d after : Driver σ} {event : Event}
    (h : d.step table = (some event, after)) : after.parser.size < d.parser.size := by
  have hsight : ∃ t, d.parser.current = some t := by
    cases hnone : d.parser.current with
    | some t => exact ⟨t, rfl⟩
    | none => simp [step, Parser.readConstruct, hnone] at h
  obtain ⟨t, ht⟩ := hsight
  unfold step at h
  simp only at h
  split at h
  · simp at h
  · obtain ⟨-, rfl⟩ := Prod.mk.inj h
    -- a fault without a token used is met at the token in sight, which is skipped
    rcases d.parser.readConstruct_behind table with hsame | hlt
    · rw [hsame]
      exact Parser.size_advance_lt ht
    · exact Nat.lt_of_le_of_lt (Parser.size_advance_le _) hlt
  · next c hc hresult =>
    obtain ⟨-, rfl⟩ := Prod.mk.inj h
    exact Parser.size_readConstruct_lt ht hresult

/-- Takes all steps. What the report says of each, seeing the driver behind it, stands behind
    `done`, which is in reverse. -/
def observeOnto {α : Type} (table : PrecedenceTable) (report : Event → Driver σ → α)
    (done : List α) (d : Driver σ) : List α × Driver σ :=
  match _h : d.step table with
  | (none, after) => (done.reverse, after)
  | (some event, after) => observeOnto table report (report event after :: done) after
termination_by d.parser.size
decreasing_by exact step_size_lt _h

/-- Takes all steps and yields what the report says of each, and the driver at its end. -/
def observe {α : Type} (table : PrecedenceTable) (report : Event → Driver σ → α)
    (d : Driver σ) : List α × Driver σ :=
  observeOnto table report [] d

theorem observeOnto_eq {α : Type} (table : PrecedenceTable) (report : Event → Driver σ → α)
    (done : List α) (d : Driver σ) :
    d.observeOnto table report done =
      (done.reverse ++ (d.observe table report).1, (d.observe table report).2) := by
  induction hn : d.parser.size using Nat.strongRecOn generalizing done d with
  | ind n ih =>
    unfold observe
    rw [observeOnto, observeOnto.eq_def table report []]
    split
    · simp
    · next event after h =>
      have hlt := hn ▸ step_size_lt h
      rw [ih _ hlt _ after rfl, ih _ hlt [_] after rfl]
      simp

/-- Without an event there is nothing to report. -/
theorem observe_of_none {α : Type} {table : PrecedenceTable} {d after : Driver σ}
    (report : Event → Driver σ → α) (h : d.step table = (none, after)) :
    d.observe table report = ([], after) := by
  unfold observe
  rw [observeOnto]
  split
  · next h' =>
    rw [h] at h'
    rw [(Prod.mk.inj h').2]
    rfl
  · next h' =>
    rw [h] at h'
    simp at h'

/-- The report of a step stands before the reports of those behind it. -/
theorem observe_of_some {α : Type} {table : PrecedenceTable} {d after : Driver σ} {event : Event}
    (report : Event → Driver σ → α) (h : d.step table = (some event, after)) :
    d.observe table report =
      (report event after :: (after.observe table report).1, (after.observe table report).2) := by
  unfold observe
  rw [observeOnto]
  split
  · next h' =>
    rw [h] at h'
    simp at h'
  · next h' =>
    rw [h] at h'
    obtain ⟨hevent, rfl⟩ := Prod.mk.inj h'
    obtain rfl := Option.some.inj hevent
    rw [observeOnto_eq]
    rfl

end Driver

end Formulary

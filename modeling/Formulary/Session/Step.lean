import Formulary.Grammar.Recovery
import Formulary.Lowering.Construct

/-!
# Sessions

A session reads a program construct by construct and makes code for each as soon as it is read. A
fault never ends it. Every step uses up a token, so every session ends.

* `Session.step`: the next construct or fault.
* `Session.step_length_lt`: a step uses up a token.
* `Session.observe`: what a report says of each step, and the session at its end; its steps are
  `observe_of_none` and `observe_of_some`.
-/

namespace Formulary

/-- The faults of a program. -/
inductive CompileError
  | parse (e : ParseError)
  | lower (e : LowerError)
deriving DecidableEq

/-- The text of a fault. -/
def CompileError.message : CompileError → String
  | parse e => "parse error: " ++ e.message
  | lower e => "lowering error: " ++ e.message

/-- What a step did. -/
inductive Event
  | definition (id : RoutineId)
  | declaration (id : RoutineId)
  /-- An expression at top level. -/
  | expression (id : RoutineId)
  | separator
  | error (e : CompileError)
deriving DecidableEq

/-- How programs are read. -/
structure Config where
  precedence : PrecedenceTable
  /-- Whether runs of digits and points that are not one number are refused. -/
  strictNumbers : Bool
  moduleName : String

/-- The operators of the language, and numbers read as far as they go. -/
def Config.standard : Config := ⟨.standard, false, "kaleido"⟩

/-- The tokens that are left of a program, and the code made so far. -/
structure Session where
  tokens : List Token
  code : CodeModule

/-- What the result of making code for a construct tells. -/
def Event.ofResult (c : Construct) : Except LowerError (Option RoutineId) → Event
  | .error e => .error (.lower e)
  | .ok none => .separator
  | .ok (some id) =>
    match c with
    | .definition _ => .definition id
    | .declaration _ => .declaration id
    | _ => .expression id

namespace Session

/-- Before the first construct of a text. -/
def start (config : Config) (text : List Char) : Session :=
  ⟨Formulary.tokens config.strictNumbers text, .empty config.moduleName⟩

/-- Reads the next construct and makes code for it (`step`). Nothing is left to do without tokens.
    -/
def step (table : PrecedenceTable) (s : Session) : Option (Event × Session) :=
  if s.tokens.isEmpty then none
  else
    let parsed := readConstruct table s.tokens
    match parsed.result with
    | .error e => some (.error (.parse e), ⟨parsed.resume, s.code⟩)
    | .ok c =>
      let (result, code) := lowerConstruct s.code c
      some (.ofResult c result, ⟨parsed.resume, code⟩)

/-- A step uses up a token. -/
theorem step_length_lt {table : PrecedenceTable} {s after : Session} {event : Event}
    (h : s.step table = some (event, after)) : after.tokens.length < s.tokens.length := by
  unfold step at h
  split at h
  · simp at h
  · next hne =>
    have hlt := @length_resume_lt table s.tokens (by simpa using hne)
    simp only at h
    split at h
    · obtain ⟨-, rfl⟩ := Prod.mk.inj (Option.some.inj h)
      exact hlt
    · obtain ⟨-, rfl⟩ := Prod.mk.inj (Option.some.inj h)
      exact hlt

/-- Takes all steps. What the report says of each, seeing the session behind it, stands behind
    `done`, which is in reverse. -/
def observeOnto {α : Type} (table : PrecedenceTable) (report : Event → Session → α)
    (done : List α) (s : Session) : List α × Session :=
  match _h : s.step table with
  | none => (done.reverse, s)
  | some (event, after) => observeOnto table report (report event after :: done) after
termination_by s.tokens.length
decreasing_by exact step_length_lt _h

/-- Takes all steps and yields what the report says of each, and the session at its end. -/
def observe {α : Type} (table : PrecedenceTable) (report : Event → Session → α) (s : Session) :
    List α × Session :=
  observeOnto table report [] s

theorem observeOnto_eq {α : Type} (table : PrecedenceTable) (report : Event → Session → α)
    (done : List α) (s : Session) :
    s.observeOnto table report done =
      (done.reverse ++ (s.observe table report).1, (s.observe table report).2) := by
  induction hn : s.tokens.length using Nat.strongRecOn generalizing done s with
  | ind n ih =>
    unfold observe
    rw [observeOnto, observeOnto.eq_def table report []]
    split
    · simp
    · next event after h =>
      have hlt := hn ▸ step_length_lt h
      rw [ih _ hlt _ after rfl, ih _ hlt [_] after rfl]
      simp

/-- Without a step there is nothing to report. -/
theorem observe_of_none {α : Type} {table : PrecedenceTable} {s : Session}
    (report : Event → Session → α) (h : s.step table = none) : s.observe table report = ([], s) := by
  unfold observe
  rw [observeOnto]
  split
  · rfl
  · next h' =>
    rw [h] at h'
    simp at h'

/-- The report of a step stands before the reports of those behind it. -/
theorem observe_of_some {α : Type} {table : PrecedenceTable} {s after : Session} {event : Event}
    (report : Event → Session → α) (h : s.step table = some (event, after)) :
    s.observe table report =
      (report event after :: (after.observe table report).1, (after.observe table report).2) := by
  unfold observe
  rw [observeOnto]
  split
  · next h' =>
    rw [h] at h'
    simp at h'
  · next h' =>
    rw [h] at h'
    obtain ⟨rfl, rfl⟩ := Prod.mk.inj (Option.some.inj h')
    rw [observeOnto_eq]
    rfl

/-- How many characters of a text of the given length and readings a session has read, the token
    in sight included. -/
def pulled (length : Nat) (readings : List Reading) (s : Session) : Nat :=
  pulledAfter length readings (readings.length - s.tokens.length + 1)

end Session

end Formulary

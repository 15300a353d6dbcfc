import Formulary.CommandLine.Directory
import Formulary.Proofs.LineDecoding
import Formulary.Proofs.Permanence
import Formulary.Proofs.Progress

/-!
# Standard input and files

Standard input is read a line at a time and hands out one character at a time. At a line that is
not UTF-8 it hands out an end and notes a failure. A session asks for characters until the first
end and not beyond, so that it sees the text of the leading lines, and the failure is noted when it
is over. So the command does the same for bytes on standard input and for a file that holds them,
as long as they are UTF-8.

* `LineSource.next_cases`: what a call for a character does.
* `LineSource.chars_ofBytes`, `LineSource.error_after`: what is handed out, and what is noted.
* `Tells`, `Told`: what is to be told of an event and of the steps of a run; `Session.told_observe`.
* `Describes`: what is known of the description of a failure.
* `standard_input_like_file`: what the command does with standard input.
-/

namespace Formulary

/-! ## Characters from lines -/

namespace LineSource

/-- The characters up to the next end. -/
def ahead (s : LineSource) : List Char := s.line ++ leadingChars s.unread

/-- The lines that have not been read are UTF-8. -/
def sound (s : LineSource) : Bool :=
  (splitLines s.unread).all fun line => (decodeLine? line).isSome

variable {s s' : LineSource} {c : Char}

/-- A character comes from the last line or from a new one, and an end from the end of the bytes or
    from a line that is not UTF-8. -/
theorem next_cases (s : LineSource) :
    (∃ c line, s.line = c :: line ∧ s.next = (some c, ⟨s.unread, line, s.error⟩)) ∨
    (∃ text c line, s.line = [] ∧ s.unread ≠ [] ∧
      decodeLine? (takeLine s.unread).1 = some text ∧ text.toList = c :: line ∧
      s.next = (some c, ⟨(takeLine s.unread).2, line, s.error⟩)) ∨
    (s.line = [] ∧ s.unread = [] ∧ s.next = (none, s)) ∨
    (s.line = [] ∧ s.unread ≠ [] ∧ decodeLine? (takeLine s.unread).1 = none ∧
      s.next = (none, ⟨(takeLine s.unread).2, [], some .notText⟩)) := by
  obtain ⟨unread, line, error⟩ := s
  cases line with
  | cons c line => exact .inl ⟨c, line, rfl, rfl⟩
  | nil =>
    by_cases hunread : unread = []
    · subst hunread
      exact .inr (.inr (.inl ⟨rfl, rfl, rfl⟩))
    · have hline := takeLine_ne_nil hunread
      have hempty : (takeLine unread).1.isEmpty = false := by simpa using hline
      cases htext : decodeLine? (takeLine unread).1 with
      | none => exact .inr (.inr (.inr ⟨rfl, hunread, rfl, by simp [next, hempty, htext]⟩))
      | some text =>
        -- a line has a byte and therefore a character
        have hne : text.toList ≠ [] := by
          intro hnil
          rw [decodeLine?_eq_some_iff, hnil] at htext
          exact hline htext
        obtain ⟨c, chars, hchars⟩ := List.exists_cons_of_ne_nil hne
        exact .inr (.inl ⟨text, c, chars, rfl, hunread, rfl, hchars,
          by simp [next, hempty, htext, hchars]⟩)

/-- A character that is handed out was the first one ahead, and nothing is noted. -/
theorem of_next_some (h : s.next = (some c, s')) :
    s.ahead = c :: s'.ahead ∧ s'.error = s.error ∧ s'.sound = s.sound := by
  rcases next_cases s with ⟨c', line, hline, hnext⟩ |
    ⟨text, c', line, hline, hunread, htext, hchars, hnext⟩ | ⟨-, -, hnext⟩ | ⟨-, -, -, hnext⟩
  · obtain ⟨hc, rfl⟩ := Prod.mk.inj (h.symm.trans hnext)
    obtain rfl := Option.some.inj hc
    refine ⟨?_, rfl, rfl⟩
    rw [ahead, hline, List.cons_append, ahead]
  · obtain ⟨hc, rfl⟩ := Prod.mk.inj (h.symm.trans hnext)
    obtain rfl := Option.some.inj hc
    refine ⟨?_, rfl, ?_⟩
    · rw [ahead, hline, List.nil_append, leadingChars_of_some hunread htext, hchars,
        List.cons_append, ahead]
    · rw [sound, sound, splitLines_eq hunread, List.all_cons, htext]
      rfl
  · simp [h] at hnext
  · simp [h] at hnext

/-- An end is handed out with nothing ahead, and a failure is noted if there is a line that is not
    UTF-8. -/
theorem of_next_none (h : s.next = (none, s')) :
    s.ahead = [] ∧ s'.error = if s.sound then s.error else some .notText := by
  rcases next_cases s with ⟨c, line, -, hnext⟩ | ⟨text, c, line, -, -, -, -, hnext⟩ |
    ⟨hline, hunread, hnext⟩ | ⟨hline, hunread, htext, hnext⟩
  · simp [h] at hnext
  · simp [h] at hnext
  · obtain rfl := (Prod.mk.inj (h.symm.trans hnext)).2
    have hsound : s'.sound = true := by
      rw [sound, hunread]
      rfl
    rw [ahead, hline, hunread, hsound]
    exact ⟨rfl, rfl⟩
  · obtain rfl := (Prod.mk.inj (h.symm.trans hnext)).2
    have hsound : s.sound = false := by
      rw [sound, splitLines_eq hunread, List.all_cons, htext]
      rfl
    rw [ahead, hline, leadingChars_of_none hunread htext, hsound]
    exact ⟨rfl, rfl⟩

theorem chars_eq (s : LineSource) : CharSource.chars s = s.ahead := by
  fun_induction CharSource.chars s with
  | case1 s s' h => exact (of_next_none h).1.symm
  | case2 s c s' h ih => rw [ih, (of_next_some h).1]

/-- Behind the first end a failure is noted if there is a line that is not UTF-8. -/
theorem error_after (s : LineSource) :
    (CharSource.after s ((CharSource.chars s).length + 1)).error =
      if s.sound then s.error else some .notText := by
  fun_induction CharSource.chars s with
  | case1 s s' h =>
    rw [CharSource.after, h]
    exact (of_next_none h).2
  | case2 s c s' h ih =>
    obtain ⟨-, herror, hsound⟩ := of_next_some h
    rw [CharSource.after, h, ← herror, ← hsound]
    exact ih

theorem chars_ofBytes (bytes : ByteArray) :
    CharSource.chars (ofBytes bytes) = (leadingText bytes).toList := by
  rw [chars_eq, toList_leadingText]
  rfl

theorem sound_ofBytes (bytes : ByteArray) :
    (ofBytes bytes).sound = (String.fromUTF8? bytes).isSome := by
  rw [← allLinesDecode_eq]
  rfl

end LineSource

/-! ## What is told -/

/-- What is to be told of an event that has left the code as it is: of a fault its message, also
    where nothing else is to be told, and of a routine a heading and its text. -/
inductive Tells (quiet : Bool) (code : CodeModule) : Event → String → Prop
  | fault (e : CompileError) : Tells quiet code (.error e) ("Error: " ++ e.message ++ "\n")
  | separator : Tells quiet code .separator ""
  | silence {event : Event} {id : RoutineId} (hquiet : quiet = true)
      (hid : event.routine? = some id) : Tells quiet code event ""
  | definition {id : RoutineId} {text : String} (hquiet : quiet = false)
      (htext : code.routineText? id = some text) :
      Tells quiet code (.definition id) ("Read function definition:\n" ++ text)
  | declaration {id : RoutineId} {text : String} (hquiet : quiet = false)
      (htext : code.routineText? id = some text) :
      Tells quiet code (.declaration id) ("Read extern:\n" ++ text)
  | expression {id : RoutineId} {text : String} (hquiet : quiet = false)
      (htext : code.routineText? id = some text) :
      Tells quiet code (.expression id) ("Read top-level expression:\n" ++ text)

/-- What is to be told of the steps of a run, one text for each. -/
def Told (quiet : Bool) (steps : List (Event × Session)) (told : List String) : Prop :=
  List.Forall₂ (fun step text => Tells quiet step.2.code step.1 text) steps told

section Told

variable {quiet : Bool} {code : CodeModule} {event : Event} {text : String}

theorem Tells.eq_tellStep (h : Tells quiet code event text) : text = tellStep quiet event code := by
  cases h with
  | fault e => rfl
  | separator => rfl
  | silence hquiet hid => cases event <;> simp_all [tellStep, tellRoutine, Event.routine?]
  | definition hquiet htext => simp [tellStep, tellRoutine, hquiet, htext]
  | declaration hquiet htext => simp [tellStep, tellRoutine, hquiet, htext]
  | expression hquiet htext => simp [tellStep, tellRoutine, hquiet, htext]

theorem Told.eq_map {steps : List (Event × Session)} {told : List String}
    (h : Told quiet steps told) :
    told = steps.map fun step => tellStep quiet step.1 step.2.code := by
  induction h with
  | nil => rfl
  | cons htells _ ih => rw [List.map_cons, ← ih, ← htells.eq_tellStep]

end Told

/-- A step tells what is to be told of it, since a routine that it reports is there. -/
theorem Session.step_tells {table : PrecedenceTable} {s s' : Session} {event : Event}
    (hstep : s.step table = some (event, s')) (quiet : Bool) :
    Tells quiet s'.code event (tellStep quiet event s'.code) := by
  have htext : ∀ id, event.routine? = some id → ∃ text, s'.code.routineText? id = some text := by
    intro id hid
    obtain ⟨r, hr, -⟩ := step_reports hstep hid
    exact ⟨_, by rw [CodeModule.routineText?, hr, Option.map_some]⟩
  cases quiet with
  | true =>
    cases event with
    | error e => exact .fault e
    | separator => exact .separator
    | definition id => exact .silence rfl rfl
    | declaration id => exact .silence rfl rfl
    | expression id => exact .silence rfl rfl
  | false =>
    cases event with
    | error e => exact .fault e
    | separator => exact .separator
    | definition id =>
      obtain ⟨text, hid⟩ := htext id rfl
      simpa [tellStep, tellRoutine, hid] using Tells.definition rfl hid
    | declaration id =>
      obtain ⟨text, hid⟩ := htext id rfl
      simpa [tellStep, tellRoutine, hid] using Tells.declaration rfl hid
    | expression id =>
      obtain ⟨text, hid⟩ := htext id rfl
      simpa [tellStep, tellRoutine, hid] using Tells.expression rfl hid

theorem Session.told_observe (table : PrecedenceTable) (quiet : Bool) (s : Session) :
    Told quiet (s.observe table Prod.mk).1
      ((s.observe table Prod.mk).1.map fun step => tellStep quiet step.1 step.2.code) := by
  induction s using runInduction table with
  | done s hstep =>
    rw [observe_of_none _ hstep]
    exact .nil
  | step s event after hstep ih =>
    rw [observe_of_some _ hstep]
    exact .cons (step_tells hstep quiet) ih

/-! ## The command -/

/-- A failure is described by what was attempted and, behind a text that parts them, the cause, if
    that is one line. -/
def Describes (describe : (context cause : String) → String) (between : String) : Prop :=
  ∀ context cause, '\n' ∉ cause.toList → describe context cause = context ++ between ++ cause

theorem describeFailure_describes : Describes describeFailure "\n\nCaused by:\n    " :=
  fun _ _ _ => rfl

section Command

variable {m : Type → Type} [Monad m] {bytes : ByteArray}

theorem Options.config_withInput (o : Options) (input : Option String) :
    Options.config { o with input := input } = o.config := rfl

/-- The run over standard input is the run over the leading lines, and a failure is noted behind it
    if not all lines are UTF-8. -/
theorem run_stdin (config : Config) (quiet : Bool) (bytes : ByteArray) :
    (run config quiet (LineSource.ofBytes bytes)).1 = runText config quiet (leadingText bytes) ∧
      (run config quiet (LineSource.ofBytes bytes)).2.error =
        if (String.fromUTF8? bytes).isSome then none else some .notText := by
  constructor
  · rw [run_eq_steps, runText_eq_steps, LineSource.chars_ofBytes]
  · rw [run_eq_steps, Session.asked_of_nil _ _ (Session.tokens_observe _ _ _),
      LineSource.error_after, LineSource.sound_ofBytes]
    rfl

theorem execute_stdin_of_text {text : String} (htext : String.fromUTF8? bytes = some text)
    (files : FileAccess m) (describe : (context cause : String) → String) (o : Options) :
    execute files describe { o with input := none } bytes =
      deliver files describe o (runText o.config o.quiet text) := by
  obtain ⟨hreport, herror⟩ := run_stdin o.config o.quiet bytes
  rw [htext, Option.isSome_some, if_pos rfl] at herror
  rw [leadingText_eq htext] at hreport
  rw [← hreport]
  simp only [execute, executeStdin, Options.config_withInput, herror]
  rfl

theorem execute_stdin_of_not_text (hbytes : String.fromUTF8? bytes = none) (files : FileAccess m)
    (describe : (context cause : String) → String) (o : Options) :
    execute files describe { o with input := none } bytes =
      pure (.failed describe (runText o.config o.quiet (leadingText bytes)).echo
        "failed to read from stdin" .notText) := by
  obtain ⟨hreport, herror⟩ := run_stdin o.config o.quiet bytes
  rw [hbytes, Option.isSome_none, if_neg (by simp)] at herror
  rw [← hreport]
  simp only [execute, executeStdin, Options.config_withInput, herror]

theorem execute_file_of_text {text : String} (htext : String.fromUTF8? bytes = some text)
    {d : Directory} {path : String} (hfile : d.contentOf path = .ok bytes)
    (describe : (context cause : String) → String) (o : Options) (stdin : ByteArray) :
    (execute Directory.access describe { o with input := some path } stdin).run d =
      (deliver Directory.access describe o (runText o.config o.quiet text)).run d := by
  have hread : (Directory.access.read path).run d = (.ok bytes, d) := by
    rw [← hfile]
    rfl
  simp only [execute, executeFile, Options.config_withInput, StateT.run_bind, hread]
  simp only [bind, Except.bind, htext]
  rfl

end Command

/-- The command does with standard input what it does with a file. The text that it reads is that of
    the leading lines that are UTF-8, as many as there are. It is what the source of characters
    hands out up to its first end. The driver of that source takes the steps of the session of the
    text. It never asks beyond the first end, and it has asked for it when it is over; then the
    source has noted a failure if and only if the bytes are not UTF-8. If they are, the command
    leaves the same outcome and the same files as for a file that holds them: it has told of each
    step, and it writes the module. Otherwise it has told of the steps of the leading lines, tells
    of the failure, writes nothing and exits with 1. -/
theorem standard_input_like_file (bytes : ByteArray) :
    let text := leadingText bytes
    let source := LineSource.ofBytes bytes
    (∃ before rest, Lines bytes.toList (before ++ rest) ∧
      (∀ line ∈ before, (decodeLine? line).isSome) ∧
      (∀ line ∈ rest.head?, decodeLine? line = none) ∧
      decodeLine? before.flatten = some text) ∧
    (∀ calls ≤ text.length,
      (CharSource.next (CharSource.after source calls)).1 = text.toList[calls]?) ∧
    (∀ config : Config,
      let start := Session.start config text.toList
      let steps := start.observe config.precedence Prod.mk
      let asked := Session.asked config.strictNumbers text.toList
      let driven := (Driver.start config source).observe config.precedence
        fun event d => (event, d.code)
      (∀ s, Session.Later config.precedence start s → asked s ≤ text.length + 1) ∧
      asked steps.2 = text.length + 1 ∧
      driven.1 = steps.1.map (fun step => (step.1, step.2.code)) ∧
      driven.2.code = steps.2.code ∧
      driven.2.source = CharSource.after source (asked steps.2) ∧
      driven.2.source.error = if (String.fromUTF8? bytes).isSome then none else some .notText) ∧
    (∀ (o : Options) (describe : (context cause : String) → String),
      let steps := (Session.start o.config text.toList).observe o.config.precedence Prod.mk
      let listing := steps.2.code.text
      let clean := steps.1.all (·.1.error?.isNone)
      ∃ told, Told o.quiet steps.1 told ∧
        ((String.fromUTF8? bytes).isSome →
          (∀ (d : Directory) (path : String) (other : ByteArray), d.contentOf path = .ok bytes →
            (execute Directory.access describe { o with input := none } bytes).run d =
              (execute Directory.access describe { o with input := some path } other).run d) ∧
          ∀ (m : Type → Type) [Monad m] (files : FileAccess m),
            (o.output = none → execute files describe { o with input := none } bytes =
              pure ⟨listing, String.join told, if clean then 0 else 1⟩) ∧
            ∀ path, o.output = some path → execute files describe { o with input := none } bytes =
              writeOutput files describe path ⟨String.join told, listing, clean⟩) ∧
        (String.fromUTF8? bytes = none → ∀ between, Describes describe between →
          ∀ (m : Type → Type) [Monad m] (files : FileAccess m),
            execute files describe { o with input := none } bytes =
              pure ⟨"", String.join told ++ "Error: failed to read from stdin" ++ between ++
                "stream did not contain valid UTF-8\n", 1⟩)) := by
  intro text source
  have hchars : CharSource.chars source = text.toList := LineSource.chars_ofBytes bytes
  have hlength : text.toList.length = text.length := String.length_toList
  refine ⟨exists_leading_lines bytes, fun calls hcalls => ?_, fun config => ?_,
    fun o describe => ?_⟩
  · rw [CharSource.next_after source (by rw [hchars, hlength]; exact hcalls), hchars]
  · intro start steps asked driven
    have hasked : asked steps.2 = text.length + 1 := by
      rw [← hlength]
      exact Session.asked_of_nil _ _ (Session.tokens_observe _ _ _)
    obtain ⟨hevents, hcode, hsource⟩ := Driver.observe_start config source Prod.mk
    rw [hchars] at hevents hcode hsource
    have herror := LineSource.error_after source
    rw [hchars, hlength, LineSource.sound_ofBytes] at herror
    refine ⟨fun s _ => ?_, hasked, hevents, hcode, hsource, ?_⟩
    · rw [← hlength]
      exact Session.asked_le _ _ s
    · calc driven.2.source.error
          = (CharSource.after source (asked steps.2)).error := congrArg _ hsource
        _ = (CharSource.after source (text.length + 1)).error := by rw [hasked]
        _ = if (String.fromUTF8? bytes).isSome then none else some .notText := herror
  · intro steps listing clean
    have hreport := runText_eq_steps o.config o.quiet text
    refine ⟨_, Session.told_observe o.config.precedence o.quiet (.start o.config text.toList),
      fun hsome => ?_, fun hnone between hdescribes m _ files => ?_⟩
    · obtain ⟨whole, hwhole⟩ := Option.isSome_iff_exists.mp hsome
      obtain rfl : text = whole := leadingText_eq hwhole
      refine ⟨fun d path other hfile => ?_, fun m _ files => ?_⟩
      · rw [execute_stdin_of_text hwhole, execute_file_of_text hwhole hfile]
      · rw [execute_stdin_of_text hwhole, hreport]
        exact ⟨fun houtput => by rw [deliver, houtput]; rfl,
          fun path houtput => by rw [deliver, houtput]⟩
    · have hcause : '\n' ∉ FileError.notText.message.toList := by decide +kernel
      rw [execute_stdin_of_not_text hnone, hreport, Outcome.failed, hdescribes _ _ hcause]
      simp only [String.append_assoc]
      rfl

/-- Three lines, the first with a character of two bytes and the last with a fault, are told of
    before one that breaks off within such a character. And a line on standard input leaves the
    module in a file of a new directory, as it does from a file. -/
theorem standard_input_like_file_broken_line :
    let broken := "#é\nextern f()\n)\n".toUTF8.push 0xC3
    let whole := "extern f()\n".toUTF8
    let o : Options := ⟨none, some "out/f.ll", "m", false, false⟩
    let d := Directory.ofFiles [("f.k", whole)]
    let fromFile : Options := { o with input := some "f.k" }
    let onFile := (execute Directory.access describeFailure fromFile .empty).run d
    (String.fromUTF8? broken = none ∧ leadingText broken = "#é\nextern f()\n)\n" ∧
      execute Directory.access describeFailure o broken =
        pure ⟨"", "Read extern:\ndeclare double @f()\n" ++
          "Error: parse error: unknown token when expecting an expression\n" ++
          "Error: failed to read from stdin\n\nCaused by:\n    " ++
          "stream did not contain valid UTF-8\n", 1⟩) ∧
    (String.fromUTF8? whole).isSome ∧ d.contentOf "f.k" = .ok whole ∧
      (execute Directory.access describeFailure o whole).run d = onFile ∧
      onFile.1 = ⟨"", "Read extern:\ndeclare double @f()\n", 0⟩ ∧
      onFile.2.contentOf "out/f.ll" =
        .ok "; ModuleID = 'm'\nsource_filename = \"m\"\n\ndeclare double @f()\n".toUTF8 := by
  intro broken whole o d fromFile onFile
  have hbroken : String.fromUTF8? broken = none := by decide +kernel
  have hwhole : (String.fromUTF8? whole).isSome := by decide +kernel
  have hfile : d.contentOf "f.k" = .ok whole := by decide +kernel
  obtain ⟨told, htold, -, hfailed⟩ := (standard_input_like_file broken).2.2.2 o describeFailure
  obtain ⟨_, -, hsame, -⟩ := (standard_input_like_file whole).2.2.2 o describeFailure
  have hecho : String.join told = "Read extern:\ndeclare double @f()\n" ++
      "Error: parse error: unknown token when expecting an expression\n" := by
    rw [htold.eq_map]
    decide +kernel
  refine ⟨⟨hbroken, by decide +kernel, ?_⟩, hwhole, hfile, (hsame hwhole).1 d "f.k" .empty hfile,
    by decide +kernel, by decide +kernel⟩
  rw [hfailed hbroken _ describeFailure_describes (StateM Directory) Directory.access, hecho]
  rfl

end Formulary

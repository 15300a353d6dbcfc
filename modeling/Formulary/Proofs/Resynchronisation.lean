import Formulary.Proofs.Phrases
import Formulary.Proofs.Scanning
import Formulary.Session.Step

/-!
# A semicolon on a new line ends everything

Where a semicolon is no operator, no phrase goes on across it: a reader that meets it does what it
would do at the end of the program, with the semicolon and all behind it left over. What was begun
before the semicolon, however deep, ends there, and reading starts anew behind it.

* `Parsed.followedBy`: the same outcome with more tokens left.
* `Reader.StopsAt`: reading in front of some tokens is reading in front of the end.
* `readConstruct_stop`: a construct stops at a semicolon.
* `outcomes_stop`: the outcomes before a semicolon and those behind it.
* `respondAll`: what a session does with outcomes.
* `outcomes_resume_at_semicolon`: the same for texts and sessions.
-/

namespace Formulary

/-! ## Stopping -/

namespace Parsed

variable {α β : Type}

/-- The same outcome with more tokens behind those that are left. -/
def followedBy (p : Parsed α) (more : List Token) : Parsed α := ⟨p.result, p.rest ++ more⟩

/-- Two readings in a row stop where both stop. -/
theorem bind_followedBy {p : Parsed α} {next : α → List Token → Parsed β} {stop : List Token}
    (h : ∀ a rest, next a (rest ++ stop) = (next a rest).followedBy stop) :
    (p.followedBy stop).bind next = (p.bind next).followedBy stop := by
  obtain ⟨result, rest⟩ := p
  cases result with
  | ok a => exact h a rest
  | error e => rfl

theorem map_followedBy (f : α → β) (p : Parsed α) (stop : List Token) :
    (p.followedBy stop).map f = (p.map f).followedBy stop :=
  bind_followedBy fun _ _ => rfl

end Parsed

/-- The reader stops at the tokens `stop` as it would at the end. -/
def Reader.StopsAt {α : Type} (r : Reader α) (stop : List Token) : Prop :=
  ∀ tokens, r.read (tokens ++ stop) = (r.read tokens).followedBy stop

section Stop

variable {table : PrecedenceTable} {inner : Reader Expr} {b : List Token}

theorem faultAt_stop (expected : ParseError) (tokens : List Token) :
    faultAt expected (tokens ++ .symbol ';' :: b) = faultAt expected tokens := by
  cases tokens with
  | nil => rfl
  | cons t rest => cases t <;> rfl

theorem readArguments_stop (hinner : inner.StopsAt (.symbol ';' :: b)) (done : List Expr)
    (tokens : List Token) :
    readArguments inner done (tokens ++ .symbol ';' :: b) =
      (readArguments inner done tokens).followedBy (.symbol ';' :: b) := by
  induction hn : tokens.length using Nat.strongRecOn generalizing done tokens with
  | ind n ih =>
    rw [readArguments_eq_bind, readArguments_eq_bind, hinner]
    rcases hread : inner.read tokens with ⟨result, rest⟩
    cases result with
    | error e => rfl
    | ok arg =>
      simp only [Parsed.followedBy, Parsed.bind]
      cases rest with
      | nil => rfl
      | cons t rest =>
        have hlt : rest.length < n := hn ▸ inner.length_lt_of_rest (by rw [hread])
        simp only [List.cons_append]
        split
        · next heq =>
          obtain ⟨rfl, rfl⟩ := List.cons.inj heq
          rfl
        · next heq =>
          obtain ⟨rfl, rfl⟩ := List.cons.inj heq
          exact ih _ hlt _ rest rfl
        · next hclose hcomma =>
          split
          · next heq =>
            obtain ⟨rfl, rfl⟩ := List.cons.inj heq
            exact (hclose _ rfl).elim
          · next heq =>
            obtain ⟨rfl, rfl⟩ := List.cons.inj heq
            exact (hcomma _ rfl).elim
          · rw [← List.cons_append, faultAt_stop]
            rfl

/-- In front of a semicolon stands no token but those from before. -/
theorem head_stop {tokens : List Token} {t : Token} (ht : t ≠ .symbol ';')
    (h : ∀ rest, tokens = t :: rest → False) (rest : List Token)
    (heq : tokens ++ .symbol ';' :: b = t :: rest) : False := by
  cases tokens with
  | nil => exact ht (List.cons.inj heq).1.symm
  | cons s tokens => exact h tokens (by rw [(List.cons.inj heq).1])

theorem readCall_stop (hinner : inner.StopsAt (.symbol ';' :: b)) (callee : String)
    (tokens : List Token) :
    readCall inner callee (tokens ++ .symbol ';' :: b) =
      (readCall inner callee tokens).followedBy (.symbol ';' :: b) := by
  fun_cases readCall inner callee tokens with
  | case1 rest => rfl
  | case2 text rest => rfl
  | case3 tokens hclose hmalformed =>
    rw [readCall.eq_3 _ _ _ (head_stop (by simp) hclose)
      (fun text => head_stop (by simp) (hmalformed text)), readArguments_stop hinner,
      Parsed.map_followedBy]

theorem readReference_stop (hinner : inner.StopsAt (.symbol ';' :: b)) (name : String)
    (tokens : List Token) :
    readReference inner name (tokens ++ .symbol ';' :: b) =
      (readReference inner name tokens).followedBy (.symbol ';' :: b) := by
  fun_cases readReference inner name tokens with
  | case1 rest => exact readCall_stop hinner name rest
  | case2 text rest => rfl
  | case3 tokens hopen hmalformed =>
    rw [readReference.eq_3 _ _ _ (head_stop (by simp) hopen)
      (fun text => head_stop (by simp) (hmalformed text))]
    rfl

theorem readClosing_stop (e : Expr) (tokens : List Token) :
    readClosing e (tokens ++ .symbol ';' :: b) =
      (readClosing e tokens).followedBy (.symbol ';' :: b) := by
  fun_cases readClosing e tokens with
  | case1 rest => rfl
  | case2 tokens hclose =>
    rw [readClosing.eq_2 _ _ (head_stop (by simp) hclose), faultAt_stop]
    rfl

/-- A primary does not go on across a semicolon. -/
theorem primary_stopsAt (hinner : inner.StopsAt (.symbol ';' :: b)) :
    (primary inner).StopsAt (.symbol ';' :: b) := by
  intro tokens
  show readPrimary inner (tokens ++ .symbol ';' :: b) = (readPrimary inner tokens).followedBy _
  fun_cases readPrimary inner tokens with
  | case1 name rest => exact readReference_stop hinner name rest
  | case2 x rest => rfl
  | case3 rest =>
    rw [List.cons_append, readPrimary.eq_3, hinner rest]
    exact Parsed.bind_followedBy readClosing_stop
  | case4 tokens hname hnumber hopen =>
    rw [readPrimary.eq_4 _ _ (fun name => head_stop (by simp) (hname name))
      (fun x => head_stop (by simp) (hnumber x)) (head_stop (by simp) hopen), faultAt_stop]
    rfl

theorem readLinks_stop (htable : table.get? ';' = none) {operand : Reader Expr}
    (hoperand : operand.StopsAt (.symbol ';' :: b)) (done : List Link) (tokens : List Token) :
    readLinks table operand done (tokens ++ .symbol ';' :: b) =
      (readLinks table operand done tokens).followedBy (.symbol ';' :: b) := by
  fun_induction readLinks table operand done tokens with
  | case1 done op rest hop =>
    rw [List.cons_append, readLinks]
    simp only [hop]
    rfl
  | case2 done op rest precedence hop parsed e he =>
    have hread : operand.read rest = .fail e parsed.rest := congrArg₂ Parsed.mk he rfl
    rw [List.cons_append, readLinks_eq_bind hop, hoperand rest, hread]
    rfl
  | case3 done op rest precedence hop parsed rhs hrhs ih =>
    have hread : operand.read rest = .ok rhs parsed.rest := congrArg₂ Parsed.mk hrhs rfl
    rw [List.cons_append, readLinks_eq_bind hop, hoperand rest, hread]
    exact ih
  | case4 done tokens hsymbol =>
    cases tokens with
    | nil =>
      rw [List.nil_append, readLinks]
      simp only [htable]
      rfl
    | cons t tokens =>
      rw [List.cons_append, readLinks.eq_2 _ _ _ _ fun op rest heq =>
        hsymbol op tokens (by rw [(List.cons.inj heq).1])]
      rfl

/-- A chain does not go on across a semicolon that is no operator. -/
theorem chain_stopsAt (htable : table.get? ';' = none) {operand : Reader Expr}
    (hoperand : operand.StopsAt (.symbol ';' :: b)) :
    (chain table operand).StopsAt (.symbol ';' :: b) := by
  intro tokens
  show readChain table operand (tokens ++ .symbol ';' :: b) =
    (readChain table operand tokens).followedBy _
  rw [readChain, readChain, hoperand tokens]
  apply Parsed.bind_followedBy
  intro first rest
  rw [readLinks_stop htable hoperand, Parsed.map_followedBy]

/-- No expression goes on across a semicolon that is no operator, however many are open. -/
theorem expression_stopsAt (htable : table.get? ';' = none) (levels : Nat) :
    (expression table levels).StopsAt (.symbol ';' :: b) := by
  induction levels with
  | zero => exact fun tokens => rfl
  | succ levels ih => exact chain_stopsAt htable (primary_stopsAt ih)

theorem readParams_stop (done : List String) (tokens : List Token) :
    readParams done (tokens ++ .symbol ';' :: b) =
      (readParams done tokens).followedBy (.symbol ';' :: b) := by
  fun_induction readParams done tokens with
  | case1 done name rest ih => exact ih
  | case2 done rest => rfl
  | case3 done tokens hname hclose =>
    rw [readParams.eq_3 _ _ (fun name => head_stop (by simp) (hname name))
      (head_stop (by simp) hclose), faultAt_stop]
    rfl

theorem readSignature_stop (name : String) (tokens : List Token) :
    readSignature name (tokens ++ .symbol ';' :: b) =
      (readSignature name tokens).followedBy (.symbol ';' :: b) := by
  fun_cases readSignature name tokens with
  | case1 rest =>
    rw [List.cons_append, readSignature, readParams_stop, Parsed.map_followedBy]
  | case2 tokens hopen =>
    rw [readSignature.eq_2 _ _ (head_stop (by simp) hopen), faultAt_stop]
    rfl

theorem readPrototype_stop (tokens : List Token) :
    readPrototype (tokens ++ .symbol ';' :: b) =
      (readPrototype tokens).followedBy (.symbol ';' :: b) := by
  fun_cases readPrototype tokens with
  | case1 name rest => exact readSignature_stop name rest
  | case2 tokens hname =>
    rw [readPrototype.eq_2 _ (fun name => head_stop (by simp) (hname name)), faultAt_stop]
    rfl

theorem readConstruct_stop (htable : table.get? ';' = none) {tokens : List Token}
    (hne : tokens ≠ []) :
    readConstruct table (tokens ++ .symbol ';' :: b) =
      (readConstruct table tokens).followedBy (.symbol ';' :: b) := by
  have hexpression : ∀ tokens, readExpression table (tokens ++ .symbol ';' :: b) =
      (readExpression table tokens).followedBy (.symbol ';' :: b) :=
    expression_stopsAt htable nestingLimit
  fun_cases readConstruct table tokens with
  | case1 => exact (hne rfl).elim
  | case2 rest => rfl
  | case3 rest =>
    rw [List.cons_append, readConstruct, readPrototype_stop]
    apply Parsed.bind_followedBy
    intro proto rest
    rw [hexpression, Parsed.map_followedBy]
  | case4 rest =>
    rw [List.cons_append, readConstruct, readPrototype_stop, Parsed.map_followedBy]
  | case5 tokens hnil hsemicolon hdefine hdeclare =>
    have hhead : ∀ rest, tokens ++ .symbol ';' :: b = .symbol ';' :: rest → False := by
      cases tokens with
      | nil => exact (hne rfl).elim
      | cons t tokens => exact fun rest heq => hsemicolon tokens (by rw [(List.cons.inj heq).1])
    rw [readConstruct.eq_5 _ _ (by simp) hhead (head_stop (by simp) hdefine)
      (head_stop (by simp) hdeclare), hexpression, Parsed.map_followedBy]

end Stop

/-! ## Outcomes -/

theorem outcomes_of_ne_nil (table : PrecedenceTable) {tokens : List Token} (hne : tokens ≠ []) :
    outcomes table tokens = (readConstruct table tokens).result ::
      outcomes table (readConstruct table tokens).resume := by
  rw [outcomes, dif_neg hne]

@[simp] theorem outcomes_nil (table : PrecedenceTable) : outcomes table [] = [] := by
  rw [outcomes, dif_pos rfl]

/-- The outcomes before a semicolon are those of the tokens there, and those behind it are those of
    the tokens behind it. The semicolon is skipped with a fault, or is an outcome of its own. -/
theorem outcomes_stop {table : PrecedenceTable} (htable : table.get? ';' = none)
    (a b : List Token) :
    outcomes table (a ++ .symbol ';' :: b) = outcomes table a ++ outcomes table b ∨
      outcomes table (a ++ .symbol ';' :: b) =
        outcomes table a ++ .ok .separator :: outcomes table b := by
  induction hn : a.length using Nat.strongRecOn generalizing a with
  | ind n ih =>
    by_cases hne : a = []
    · right
      rw [hne, List.nil_append, outcomes_of_ne_nil table (by simp), outcomes_nil, List.nil_append]
      rfl
    · have hlt : (readConstruct table a).resume.length < n := hn ▸ length_resume_lt table hne
      rw [outcomes_of_ne_nil table (by simp), readConstruct_stop htable hne,
        outcomes_of_ne_nil table hne]
      rcases hread : readConstruct table a with ⟨result, rest⟩
      rw [hread] at hlt
      cases result with
      | ok c =>
        rcases ih _ hlt rest rfl with h | h
        · exact .inl (congrArg (_ :: ·) h)
        · exact .inr (congrArg (_ :: ·) h)
      | error e =>
        cases rest with
        | nil =>
          -- the fault is at the semicolon, which is then skipped
          left
          show _ :: outcomes table b = _ :: outcomes table [] ++ outcomes table b
          rw [outcomes_nil, List.singleton_append]
          rfl
        | cons t rest =>
          rcases ih _ hlt rest rfl with h | h
          · exact .inl (congrArg (_ :: ·) h)
          · exact .inr (congrArg (_ :: ·) h)

/-- The outcome is a separator. -/
def isSeparation : Except ParseError Construct → Bool
  | .ok .separator => true
  | _ => false

/-- The outcomes that are no separators. -/
def spoken (os : List (Except ParseError Construct)) : List (Except ParseError Construct) :=
  os.filter (!isSeparation ·)

/-! ## Sessions -/

/-- What a session does with an outcome: it tells of a fault, and makes code for a construct. -/
def respond (m : CodeModule) : Except ParseError Construct → Event × CodeModule
  | .error e => (.error (.parse e), m)
  | .ok c => (.ofResult c (lowerConstruct m c).1, (lowerConstruct m c).2)

/-- What a session does with outcomes, one after the other. -/
def respondAll (m : CodeModule) :
    List (Except ParseError Construct) → List Event × CodeModule
  | [] => ([], m)
  | o :: rest =>
    ((respond m o).1 :: (respondAll (respond m o).2 rest).1, (respondAll (respond m o).2 rest).2)

theorem respondAll_append (m : CodeModule) (os os' : List (Except ParseError Construct)) :
    respondAll m (os ++ os') =
      ((respondAll m os).1 ++ (respondAll (respondAll m os).2 os').1,
        (respondAll (respondAll m os).2 os').2) := by
  induction os generalizing m with
  | nil => rfl
  | cons o rest ih =>
    rw [List.cons_append, respondAll, ih]
    rfl

/-- While there are tokens, a step responds to what is read and goes on behind it. -/
theorem Session.step_eq_respond (table : PrecedenceTable) {tokens : List Token} (code : CodeModule)
    (hne : tokens ≠ []) :
    Session.step table ⟨tokens, code⟩ =
      some ((respond code (readConstruct table tokens).result).1,
        ⟨(readConstruct table tokens).resume,
          (respond code (readConstruct table tokens).result).2⟩) := by
  rw [Session.step, if_neg (by simpa using hne)]
  simp only
  split
  · next e he =>
    rw [he]
    rfl
  · next c hc =>
    rw [hc]
    rfl

/-- A session reads the outcomes of its tokens and responds to each. -/
theorem observe_eq_respondAll (table : PrecedenceTable) (s : Session) :
    s.observe table (fun event _ => event) =
      ((respondAll s.code (outcomes table s.tokens)).1,
        ⟨[], (respondAll s.code (outcomes table s.tokens)).2⟩) := by
  induction hn : s.tokens.length using Nat.strongRecOn generalizing s with
  | ind n ih =>
    obtain ⟨tokens, code⟩ := s
    by_cases hne : tokens = []
    · subst hne
      rw [Session.observe_of_none _ rfl, outcomes_nil]
      rfl
    · have hstep := Session.step_eq_respond table code hne
      rw [Session.observe_of_some _ hstep, ih _ (hn ▸ Session.step_length_lt hstep) _ rfl,
        outcomes_of_ne_nil table hne]
      rfl

/-- A semicolon on a new line, where it is no operator, is a point at which reading starts anew,
    whatever stands before it. The constructs and faults of the whole text are those of the text
    before the line and those of the text behind the semicolon, separators apart. And the events of
    a session over the whole text are those of a session over the text before, followed by those of
    a session over the text behind that goes on with the module the first one left. -/
theorem outcomes_resume_at_semicolon (config : Config) (htable : config.precedence.get? ';' = none)
    (a b : String) :
    let lex := fun text : String => tokens config.strictNumbers text.toList
    let read := fun text => outcomes config.precedence (lex text)
    let run := fun s : Session => s.observe config.precedence fun event _ => event
    let before := run (.start config a.toList)
    let behind := run ⟨lex b, before.2.code⟩
    let whole := run (.start config (a ++ "\n;" ++ b).toList)
    spoken (read (a ++ "\n;" ++ b)) = spoken (read a) ++ spoken (read b) ∧
      whole.1.filter (· ≠ .separator) =
        before.1.filter (· ≠ .separator) ++ behind.1.filter (· ≠ .separator) ∧
      whole.2.code = behind.2.code := by
  intro lex read run before behind whole
  have htokens : lex (a ++ "\n;" ++ b) = lex a ++ .symbol ';' :: lex b := by
    have hsymbol : IsSymbol ';' := ⟨by decide, by decide, by decide, by decide⟩
    show tokens _ (a ++ "\n;" ++ b).toList = _
    rw [String.toList_append, String.toList_append, List.append_assoc]
    show tokens _ (a.toList ++ '\n' :: ';' :: b.toList) = _
    rw [tokens_append_line, tokens_symbol hsymbol]
  have hread := outcomes_stop htable (lex a) (lex b)
  rw [← htokens] at hread
  have hbefore : before = ((respondAll (.empty config.moduleName) (read a)).1,
      ⟨[], (respondAll (.empty config.moduleName) (read a)).2⟩) :=
    observe_eq_respondAll config.precedence (.start config a.toList)
  have hbehind : behind = ((respondAll before.2.code (read b)).1,
      ⟨[], (respondAll before.2.code (read b)).2⟩) :=
    observe_eq_respondAll config.precedence ⟨lex b, before.2.code⟩
  have hwhole : whole = ((respondAll (.empty config.moduleName) (read (a ++ "\n;" ++ b))).1,
      ⟨[], (respondAll (.empty config.moduleName) (read (a ++ "\n;" ++ b))).2⟩) :=
    observe_eq_respondAll config.precedence (.start config (a ++ "\n;" ++ b).toList)
  rw [hwhole, hbehind, hbefore]
  rcases hread with hread | hread
  · rw [show read (a ++ "\n;" ++ b) = read a ++ read b from hread, respondAll_append]
    simp [spoken]
  · rw [show read (a ++ "\n;" ++ b) = read a ++ .ok .separator :: read b from hread,
      respondAll_append]
    simp [spoken, isSeparation, respondAll, respond, lowerConstruct, Event.ofResult]

/-- What stands behind a call that is left open, with a malformed literal in it, is read by
    itself. -/
theorem outcomes_resume_behind_open_call :
    Config.standard.precedence.get? ';' = none ∧
      spoken (outcomes .standard (tokens false ("f((1.2.3" ++ "\n;" ++ "extern g(y)").toList)) =
        spoken (outcomes .standard (tokens false "f((1.2.3".toList)) ++
          spoken (outcomes .standard (tokens false "extern g(y)".toList)) := by
  have htable : Config.standard.precedence.get? ';' = none := by decide
  exact ⟨htable, (outcomes_resume_at_semicolon .standard htable "f((1.2.3" "extern g(y)").1⟩

end Formulary

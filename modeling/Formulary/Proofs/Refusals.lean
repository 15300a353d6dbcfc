import Formulary.Proofs.Phrases
import Formulary.Proofs.Resynchronisation
import Formulary.Proofs.Sessions

/-!
# No refused number is passed over

Strict reading refuses some numbers. No reader takes a refused number, so a session passes one only
by skipping it after a fault, and the fault is the refusal itself, unless reading was refused for
its depth while the number was in sight. So the refusals that a session reports are the refused
numbers of the text, in order, less those that a refusal of a depth hides.

* `Parsed.Heeds`: reading takes no refused number and reports the one in sight.
* `expression_heeds`, `readConstruct_heeds`: this holds of expressions and of constructs.
* `Passage`, `Session.passages`: how a session goes through its tokens.
* `Session.passages_heed`: what a passage takes, skips and reports.
* `refused_numbers_reported`: the refusals reported for a text.
-/

namespace Formulary

variable {α β : Type}

/-! ## Readers heed refused numbers -/

/-- The fault is the refusal of a depth, or is told by the token in sight: it is a refused number
    exactly when that stands in front of `rest`. -/
def FaultInSight (e : ParseError) (rest : List Token) : Prop :=
  e = .nestingTooDeep nestingLimit ∨
    ∀ text, e = .malformedNumber text ↔ rest.head? = some (.malformed text)

namespace Parsed

/-- From the tokens no refused number was taken, and a fault is told by the token in sight. -/
structure Heeds (tokens : List Token) (p : Parsed α) : Prop where
  taken : ∃ c, tokens = c ++ p.rest ∧ ∀ t ∈ c, t.isSound = true
  fault : ∀ e, p.result = .error e → FaultInSight e p.rest

namespace Heeds

variable {tokens : List Token} {p : Parsed α} {t : Token}

theorem ok (a : α) (tokens : List Token) : (Parsed.ok a tokens).Heeds tokens :=
  ⟨⟨[], rfl, by simp⟩, by simp [Parsed.ok]⟩

theorem tooDeep (tokens : List Token) :
    (Parsed.fail (.nestingTooDeep nestingLimit) tokens : Parsed α).Heeds tokens := by
  refine ⟨⟨[], rfl, by simp⟩, fun e he => .inl ?_⟩
  exact (Except.error.inj he).symm

/-- Where something else was expected, a refused number is reported as such. -/
theorem faultAt {expected : ParseError} (h : ∀ text, expected ≠ .malformedNumber text)
    (tokens : List Token) :
    (Parsed.fail (faultAt expected tokens) tokens : Parsed α).Heeds tokens := by
  refine ⟨⟨[], rfl, by simp⟩, fun e he => .inr fun text => ?_⟩
  obtain rfl := Except.error.inj he
  unfold Formulary.faultAt
  split
  · simp
  · next hmalformed =>
    refine iff_of_false (h text) fun hhead => ?_
    obtain ⟨tail, rfl⟩ := List.head?_eq_some_iff.mp hhead
    exact hmalformed text tail rfl

theorem refused (text : String) (rest : List Token) :
    (Parsed.fail (.malformedNumber text) (.malformed text :: rest) : Parsed α).Heeds
      (.malformed text :: rest) :=
  @faultAt α .expectedExpression (by simp) (.malformed text :: rest)

theorem behind (h : p.Heeds tokens) (ht : t.isSound = true) : p.Heeds (t :: tokens) := by
  obtain ⟨⟨c, hc, hsound⟩, hfault⟩ := h
  refine ⟨⟨t :: c, by rw [hc, List.cons_append], ?_⟩, hfault⟩
  intro u hu
  rcases List.mem_cons.mp hu with rfl | hu
  · exact ht
  · exact hsound u hu

/-- Two readings in a row heed refused numbers if both do. -/
theorem bind {next : α → List Token → Parsed β} (h : p.Heeds tokens)
    (hnext : ∀ a rest, p = .ok a rest → (next a rest).Heeds rest) :
    (p.bind next).Heeds tokens := by
  obtain ⟨⟨c, hc, hsound⟩, hfault⟩ := h
  obtain ⟨result, rest⟩ := p
  cases result with
  | error e => exact ⟨⟨c, hc, hsound⟩, fun e' he => hfault e' (congrArg _ (Except.error.inj he))⟩
  | ok a =>
    obtain ⟨⟨d, hd, hsound'⟩, hfault'⟩ := hnext a rest rfl
    refine ⟨⟨c ++ d, ?_, ?_⟩, hfault'⟩
    · rw [hc, List.append_assoc]
      exact congrArg (c ++ ·) hd
    · intro t ht
      rcases List.mem_append.mp ht with ht | ht
      · exact hsound t ht
      · exact hsound' t ht

theorem map (h : p.Heeds tokens) (f : α → β) : (p.map f).Heeds tokens :=
  h.bind fun a rest _ => .ok (f a) rest

end Heeds

end Parsed

/-- The reader heeds refused numbers. -/
def Reader.Heeds (r : Reader α) : Prop := ∀ tokens, (r.read tokens).Heeds tokens

section Expressions

variable {table : PrecedenceTable} {inner : Reader Expr}

theorem readArguments_heeds (hinner : inner.Heeds) (done : List Expr) (tokens : List Token) :
    (readArguments inner done tokens).Heeds tokens := by
  induction hn : tokens.length using Nat.strongRecOn generalizing done tokens with
  | ind n ih =>
    rw [readArguments_eq_bind]
    refine (hinner tokens).bind fun arg rest hread => ?_
    split
    · exact .behind (.ok _ _) rfl
    · next tail =>
      have hlt : tail.length < n := hn ▸ inner.length_lt_of_rest (by rw [hread]; rfl)
      exact .behind (ih _ hlt _ tail rfl) rfl
    · exact .faultAt (by simp) _

theorem readCall_heeds (hinner : inner.Heeds) (callee : String) (tokens : List Token) :
    (readCall inner callee tokens).Heeds tokens := by
  unfold readCall
  split
  · exact .behind (.ok _ _) rfl
  · exact .refused _ _
  · exact (readArguments_heeds hinner [] _).map _

theorem readReference_heeds (hinner : inner.Heeds) (name : String) (tokens : List Token) :
    (readReference inner name tokens).Heeds tokens := by
  unfold readReference
  split
  · exact .behind (readCall_heeds hinner name _) rfl
  · exact .refused _ _
  · exact .ok _ _

theorem readClosing_heeds (e : Expr) (tokens : List Token) :
    (readClosing e tokens).Heeds tokens := by
  unfold readClosing
  split
  · exact .behind (.ok _ _) rfl
  · exact .faultAt (by simp) _

theorem primary_heeds (hinner : inner.Heeds) : (primary inner).Heeds := by
  intro tokens
  show (readPrimary inner tokens).Heeds tokens
  unfold readPrimary
  split
  · exact .behind (readReference_heeds hinner _ _) rfl
  · exact .behind (.ok _ _) rfl
  · exact .behind ((hinner _).bind fun e rest _ => readClosing_heeds e rest) rfl
  · exact .faultAt (by simp) _

theorem readLinks_heeds {operand : Reader Expr} (hoperand : operand.Heeds) (done : List Link)
    (tokens : List Token) : (readLinks table operand done tokens).Heeds tokens := by
  induction hn : tokens.length using Nat.strongRecOn generalizing done tokens with
  | ind n ih =>
    rcases notOperator_or_operator table tokens with hop | ⟨op, rest, precedence, rfl, hop⟩
    · rw [readLinks_of_notOperator operand done hop]
      exact .ok _ _
    · rw [readLinks_eq_bind hop]
      refine .behind ((hoperand rest).bind fun rhs left hread => ?_) rfl
      exact ih _ (hn ▸ Nat.lt_succ_of_le (operand.length_le_of_read hread)) _ left rfl

theorem chain_heeds {operand : Reader Expr} (hoperand : operand.Heeds) :
    (chain table operand).Heeds := fun tokens =>
  (hoperand tokens).bind fun _ rest _ => (readLinks_heeds hoperand [] rest).map _

/-- Expressions heed refused numbers, however many are open. -/
theorem expression_heeds (table : PrecedenceTable) (levels : Nat) :
    (expression table levels).Heeds := by
  induction levels with
  | zero => exact fun tokens => .tooDeep tokens
  | succ levels ih => exact chain_heeds (primary_heeds ih)

end Expressions

theorem readParams_heeds (done : List String) (tokens : List Token) :
    (readParams done tokens).Heeds tokens := by
  fun_induction readParams done tokens with
  | case1 done name rest ih => exact .behind ih rfl
  | case2 done rest => exact .behind (.ok _ _) rfl
  | case3 => exact .faultAt (by simp) _

theorem readPrototype_heeds (tokens : List Token) : (readPrototype tokens).Heeds tokens := by
  unfold readPrototype
  split
  · refine .behind ?_ rfl
    unfold readSignature
    split
    · exact .behind ((readParams_heeds [] _).map _) rfl
    · exact .faultAt (by simp) _
  · exact .faultAt (by simp) _

theorem readConstruct_heeds (table : PrecedenceTable) (tokens : List Token) :
    (readConstruct table tokens).Heeds tokens := by
  have hexpression : ∀ tokens, (readExpression table tokens).Heeds tokens :=
    expression_heeds table nestingLimit
  unfold readConstruct
  split
  · exact .ok _ _
  · exact .behind (.ok _ _) rfl
  · exact .behind ((readPrototype_heeds _).bind fun p rest _ => (hexpression rest).map _) rfl
  · exact .behind ((readPrototype_heeds _).map _) rfl
  · exact (hexpression _).map _

/-! ## The passages of a session -/

/-- The text of a refused number. -/
def Token.refused? : Token → Option String
  | malformed text => some text
  | _ => none

/-- The refused number that an event reports. -/
def Event.refused? : Event → Option String
  | error (.parse (.malformedNumber text)) => some text
  | _ => none

theorem Token.refused?_eq_some_iff {t : Token} {text : String} :
    t.refused? = some text ↔ t = .malformed text := by
  cases t <;> simp [refused?]

theorem Event.refused?_eq_some_iff {event : Event} {text : String} :
    event.refused? = some text ↔ event = .error (.parse (.malformedNumber text)) := by
  unfold refused?
  split <;> simp_all

theorem Event.ofResult_ne_parse (k : Construct) (result : Except LowerError (Option RoutineId))
    (e : ParseError) : Event.ofResult k result ≠ .error (.parse e) := by
  rcases result with e' | id?
  · simp [ofResult]
  · rcases id? with _ | id
    · simp [ofResult]
    · cases k <;> simp [ofResult]

/-- The event is the refusal of a depth. -/
def Event.isTooDeep (event : Event) : Bool :=
  event = .error (.parse (.nestingTooDeep nestingLimit))

/-- How a step of a session goes through its tokens. -/
structure Passage where
  /-- The tokens that reading took. -/
  taken : List Token
  /-- After a fault of form, the token that was in sight and is skipped. -/
  skipped : Option Token
  event : Event

namespace Passage

/-- The tokens that the step used up. -/
def used (p : Passage) : List Token := p.taken ++ p.skipped.toList

/-- The refused number that is skipped. -/
def literal? (p : Passage) : Option String := p.skipped.bind Token.refused?

/-- A refused number is passed only by being skipped after a fault, and the fault reports it, unless
    it is the refusal of a depth. -/
structure Heeds (p : Passage) : Prop where
  taken : ∀ t ∈ p.taken, t.isSound = true
  skipped : p.skipped.isSome = true → ∃ e, p.event = .error (.parse e)
  reported : ∀ text, p.literal? = some text →
    p.event = .error (.parse (.malformedNumber text)) ∨
      p.event = .error (.parse (.nestingTooDeep nestingLimit))
  literal : ∀ text, p.event = .error (.parse (.malformedNumber text)) → p.literal? = some text

/-- The only refused number that a passage uses up is the one that it skips. -/
theorem Heeds.refused_used {p : Passage} (h : p.Heeds) :
    p.used.filterMap Token.refused? = p.literal?.toList := by
  have htaken : p.taken.filterMap Token.refused? = [] := by
    rw [List.filterMap_eq_nil_iff]
    intro t ht
    rw [Option.eq_none_iff_forall_ne_some]
    intro text htext
    have hsound := h.taken t ht
    rw [Token.refused?_eq_some_iff.mp htext] at hsound
    simp [Token.isSound] at hsound
  rw [used, List.filterMap_append, htaken, List.nil_append, literal?]
  cases p.skipped with
  | none => rfl
  | some t => cases ht : t.refused? <;> simp [ht]

/-- The refused number that is skipped is the one that is reported, unless the event is the refusal
    of a depth. -/
theorem Heeds.refused_event {p : Passage} (h : p.Heeds) :
    p.event.refused? = if p.event.isTooDeep then none else p.literal? := by
  split_ifs with hdeep
  · rw [of_decide_eq_true hdeep]
    rfl
  · refine Option.ext fun text => ?_
    rw [Event.refused?_eq_some_iff]
    constructor
    · exact h.literal text
    · intro hliteral
      refine (h.reported text hliteral).resolve_right fun htooDeep => hdeep ?_
      exact decide_eq_true htooDeep

/-- The refused numbers among the tokens that passages use up. -/
theorem refused_flatMap_used {ps : List Passage} (h : ∀ p ∈ ps, p.Heeds) :
    (ps.flatMap used).filterMap Token.refused? = ps.filterMap literal? := by
  induction ps with
  | nil => rfl
  | cons p ps ih =>
    rw [List.flatMap_cons, List.filterMap_append, (h p List.mem_cons_self).refused_used,
      ih fun q hq => h q (List.mem_cons_of_mem p hq)]
    cases hp : p.literal? <;> simp [hp]

/-- The refused numbers that passages report. -/
theorem refused_events {ps : List Passage} (h : ∀ p ∈ ps, p.Heeds) :
    ps.filterMap (·.event.refused?) =
      (ps.filter (!·.event.isTooDeep)).filterMap literal? := by
  induction ps with
  | nil => rfl
  | cons p ps ih =>
    have hps := ih fun q hq => h q (List.mem_cons_of_mem p hq)
    have hp := (h p List.mem_cons_self).refused_event
    cases hdeep : p.event.isTooDeep with
    | true =>
      rw [hdeep, if_pos rfl] at hp
      rw [List.filterMap_cons, hp, List.filter_cons_of_neg (by simp [hdeep]), hps]
    | false =>
      rw [hdeep, if_neg (by simp)] at hp
      rw [List.filter_cons_of_pos (by simp [hdeep]), List.filterMap_cons, List.filterMap_cons, hp,
        hps]

end Passage

namespace Session

variable {table : PrecedenceTable} {s after : Session} {event : Event}

/-- The passage of a step that tells the event. -/
def passage (table : PrecedenceTable) (s : Session) (event : Event) : Passage :=
  let parsed := readConstruct table s.tokens
  { taken := s.tokens.take (s.tokens.length - parsed.rest.length)
    skipped := match parsed.result with
      | .ok _ => none
      | .error _ => parsed.rest.head?
    event }

/-- The passages of all steps. -/
def passages (table : PrecedenceTable) (s : Session) : List Passage :=
  match _h : s.step table with
  | none => []
  | some (event, after) => s.passage table event :: passages table after
termination_by s.tokens.length
decreasing_by exact step_length_lt _h

theorem passages_of_none (h : s.step table = none) : s.passages table = [] := by
  rw [passages]
  split
  · rfl
  · next h' =>
    rw [h] at h'
    simp at h'

theorem passages_of_some (h : s.step table = some (event, after)) :
    s.passages table = s.passage table event :: after.passages table := by
  rw [passages]
  split
  · next h' =>
    rw [h] at h'
    simp at h'
  · next h' =>
    rw [h] at h'
    obtain ⟨rfl, rfl⟩ := Prod.mk.inj (Option.some.inj h')
    rfl

theorem passage_taken (table : PrecedenceTable) (s : Session) (event : Event) :
    (s.passage table event).taken ++ (readConstruct table s.tokens).rest = s.tokens :=
  List.suffix_iff_eq_append.mp (readConstruct_suffix table s.tokens)

/-- What is skipped is what reading leaves and the session does not go on with. -/
theorem passage_skipped (table : PrecedenceTable) (s : Session) (event : Event) :
    (s.passage table event).skipped.toList ++ (readConstruct table s.tokens).resume =
      (readConstruct table s.tokens).rest := by
  unfold passage Parsed.resume
  rcases readConstruct table s.tokens with ⟨result, rest⟩
  cases result with
  | ok k => rfl
  | error e => cases rest <;> rfl

/-- A step tells of what is read and goes on behind it. -/
theorem respond_of_step (h : s.step table = some (event, after)) :
    event = (respond s.code (readConstruct table s.tokens).result).1 ∧
      after.tokens = (readConstruct table s.tokens).resume := by
  obtain ⟨tokens, code⟩ := s
  have hne : tokens ≠ [] := by
    rintro rfl
    simp [step] at h
  rw [step_eq_respond table code hne] at h
  obtain ⟨rfl, rfl⟩ := Prod.mk.inj (Option.some.inj h)
  exact ⟨rfl, rfl⟩

theorem passage_used (h : s.step table = some (event, after)) :
    (s.passage table event).used ++ after.tokens = s.tokens := by
  calc (s.passage table event).used ++ after.tokens
      = (s.passage table event).taken ++ ((s.passage table event).skipped.toList ++
          (readConstruct table s.tokens).resume) := by
        rw [(respond_of_step h).2, Passage.used, List.append_assoc]
    _ = (s.passage table event).taken ++ (readConstruct table s.tokens).rest := by
        rw [passage_skipped]
    _ = s.tokens := passage_taken table s event

theorem passage_heeds (h : s.step table = some (event, after)) : (s.passage table event).Heeds := by
  obtain ⟨hevent, -⟩ := respond_of_step h
  obtain ⟨⟨c, hc, hsound⟩, hfault⟩ := readConstruct_heeds table s.tokens
  obtain rfl : (s.passage table event).taken = c :=
    List.append_cancel_right ((passage_taken table s event).trans hc)
  cases hresult : (readConstruct table s.tokens).result with
  | ok k =>
    have hskipped : (s.passage table event).skipped = none := by simp [passage, hresult]
    rw [hresult] at hevent
    refine ⟨hsound, by simp [hskipped], by simp [Passage.literal?, hskipped], fun text htext => ?_⟩
    exact (Event.ofResult_ne_parse _ _ _ (hevent.symm.trans htext)).elim
  | error e =>
    have hskipped : (s.passage table event).skipped =
        (readConstruct table s.tokens).rest.head? := by
      simp [passage, hresult]
    rw [hresult] at hevent
    have hliteral : ∀ text, (s.passage table event).literal? = some text ↔
        (readConstruct table s.tokens).rest.head? = some (.malformed text) := by
      intro text
      simp [Passage.literal?, hskipped, Option.bind_eq_some_iff, Token.refused?_eq_some_iff]
    refine ⟨hsound, fun _ => ⟨e, hevent⟩, fun text htext => ?_, fun text htext => ?_⟩
    · rcases hfault e hresult with rfl | hsight
      · exact .inr hevent
      · obtain rfl := (hsight text).mpr ((hliteral text).mp htext)
        exact .inl hevent
    · obtain rfl : e = .malformedNumber text := by simpa [respond] using hevent.symm.trans htext
      rcases hfault _ hresult with hdeep | hsight
      · simp at hdeep
      · exact (hliteral text).mpr ((hsight text).mp rfl)

theorem map_event_passages (table : PrecedenceTable) (s : Session) :
    (s.passages table).map (·.event) = (s.observe table fun event _ => event).1 := by
  induction s using runInduction table with
  | done s hstep => rw [passages_of_none hstep, observe_of_none _ hstep, List.map_nil]
  | step s event after hstep ih =>
    rw [passages_of_some hstep, observe_of_some _ hstep, List.map_cons, ih]
    rfl

/-- The passages use up the tokens, one after the other. -/
theorem flatMap_used_passages (table : PrecedenceTable) (s : Session) :
    (s.passages table).flatMap Passage.used = s.tokens := by
  induction s using runInduction table with
  | done s hstep => rw [passages_of_none hstep, step_eq_none_iff.mp hstep, List.flatMap_nil]
  | step s event after hstep ih =>
    rw [passages_of_some hstep, List.flatMap_cons, ih, passage_used hstep]

theorem passages_heed (table : PrecedenceTable) (s : Session) :
    ∀ p ∈ s.passages table, p.Heeds := by
  induction s using runInduction table with
  | done s hstep => simp [passages_of_none hstep]
  | step s event after hstep ih =>
    rw [passages_of_some hstep]
    intro p hp
    rcases List.mem_cons.mp hp with rfl | hp
    · exact passage_heeds hstep
    · exact ih p hp

end Session

/-- The steps of a session use up the tokens of its text one after the other, and refused numbers
    among them are not passed over. Reading takes none of them, so that no construct has one in it;
    a refused number is only skipped, after a fault that reports it or that refuses a depth with the
    number in sight. The numbers that are skipped are thus all refused numbers of the text, in
    order, and those that are reported are the same without the ones that a refusal of a depth
    skips. -/
theorem refused_numbers_reported (config : Config) (text : String) :
    let start := Session.start config text.toList
    let passages := start.passages config.precedence
    let all := tokens config.strictNumbers text.toList
    passages.map (·.event) = (start.observe config.precedence fun event _ => event).1 ∧
      passages.flatMap Passage.used = all ∧
      (∀ p ∈ passages, p.Heeds) ∧
      passages.filterMap Passage.literal? = all.filterMap Token.refused? ∧
      passages.filterMap (·.event.refused?) =
        (passages.filter (!·.event.isTooDeep)).filterMap Passage.literal? := by
  intro start passages all
  have hheeds : ∀ p ∈ passages, p.Heeds := start.passages_heed config.precedence
  have hused : passages.flatMap Passage.used = all := start.flatMap_used_passages config.precedence
  refine ⟨start.map_event_passages config.precedence, hused, hheeds, ?_, ?_⟩
  · rw [← hused, Passage.refused_flatMap_used hheeds]
  · exact Passage.refused_events hheeds

/-- The number behind the last parenthesis that may be opened is hidden by the refusal of its depth,
    and the next one is reported. -/
example :
    let text := List.replicate 256 '(' ++ "1.2.3 4.5.6".toList
    let passages :=
      (Session.start { Config.standard with strictNumbers := true } text).passages .standard
    passages.map (fun p => (p.taken.length, p.literal?, p.event.refused?)) =
      [(256, some "1.2.3", none), (0, some "4.5.6", some "4.5.6")] := by
  decide +kernel

end Formulary

import Formulary.Proofs.Sessions
import Formulary.Session.Compile

/-!
# What a step reports stays true

Once a step has reported a routine, it stays where it is, with its name and its number of
parameters. A body that has been installed never changes, its calls go to the routines that the
names in its source find at any later time, and its text in the listing is the one it had at first.

* `Expr.calleeNames`, `callees`: the calls of an expression and of code, in order.
* `Emits.callees`: code calls what the names in its source find.
* `Session.Installs`: a step installs the code of a formula.
* `Session.Later.origin`: where every body comes from.
* `reports_stay_true`: all together.
-/

namespace Formulary

open CodeModule

/-! ## Calls -/

mutual

/-- The names that an expression calls, in the order of evaluation. -/
def Expr.calleeNames : Expr → List String
  | .number _ => []
  | .var _ => []
  | .binary _ lhs rhs => lhs.calleeNames ++ rhs.calleeNames
  | .call callee args => calleeNamesInCall args ++ [callee]

/-- The names that arguments call, from left to right. -/
def Expr.calleeNamesInCall : List Expr → List String
  | [] => []
  | e :: rest => e.calleeNames ++ calleeNamesInCall rest

end

/-- The routine that an operation calls. -/
def Operation.callee? : Operation → Option RoutineId
  | call callee _ => some callee
  | _ => none

/-- The routines that instructions call, in order. -/
def callees (instructions : Array Instruction) : List RoutineId :=
  instructions.toList.filterMap (·.operation.callee?)

section Calls

variable {b b' : Builder}

theorem Builder.callees_push (b : Builder) (name : String) (operation : Operation) :
    callees (b.push name operation).2.instructions =
      callees b.instructions ++ operation.callee?.toList := by
  unfold callees Builder.push
  simp only [Array.toList_push, List.filterMap_append]
  cases operation <;> rfl

theorem callees_emitOperator {op : Char} {l r v : Value}
    (h : emitOperator op l r b = .ok (v, b')) :
    callees b'.instructions = callees b.instructions := by
  have hbinary : ∀ (b : Builder) operation l r name,
      callees (b.binary operation l r name).2.instructions = callees b.instructions := by
    intro b operation l r name
    rcases b.binary_cases operation l r name with ⟨x, y, -, -, hfold⟩ | hpush
    · rw [hfold]
    · rw [hpush, Builder.callees_push]
      exact List.append_nil _
  have htruth : ∀ (b : Builder) v name,
      callees (b.ofTruth v name).2.instructions = callees b.instructions := by
    intro b v name
    rcases b.ofTruth_cases v name with ⟨flag, -, hfold⟩ | hpush
    · rw [hfold]
    · rw [hpush, Builder.callees_push]
      exact List.append_nil _
  rcases emitOperator_eq_ok h with ⟨operation, name, -, hb⟩ | ⟨-, flag, b₁, hb, hb'⟩
  · rw [← hbinary b operation l r name, hb]
  · rw [← hbinary b .less l r "cmptmp", hb, ← htruth b₁ flag "booltmp", hb']

-- The induction is on the code that was made; calls are emitted behind those of their arguments.
mutual

/-- Code calls what the names in its source find. -/
theorem Emits.callees {s : Scope} {e : Expr} {v : Value} {b b' : Builder} :
    Emits s e b v b' → (Formulary.callees b'.instructions).map some =
      (Formulary.callees b.instructions).map some ++ e.calleeNames.map s.code.find?
  | .number x b => by simp [Expr.calleeNames]
  | .var b hi => by simp [Expr.calleeNames]
  | .binary hl hr hop => by
    rw [callees_emitOperator hop, hr.callees, hl.callees, Expr.calleeNames, List.map_append,
      List.append_assoc]
  | @Emits.call _ callee args target values _ b₁ htarget hargs => by
    have hfind := (Scope.lookupCallee_eq_ok_iff.mp htarget).1
    have hpush := b₁.callees_push "calltmp" (.call target values)
    unfold Builder.call
    rw [hpush, List.map_append, hargs.callees, Expr.calleeNames, List.map_append,
      List.append_assoc, List.map_singleton, hfind]
    rfl

theorem EmitsAll.callees {s : Scope} {es : List Expr} {values : List Value} {b b' : Builder} :
    EmitsAll s es b values b' → (Formulary.callees b'.instructions).map some =
      (Formulary.callees b.instructions).map some ++ (Expr.calleeNamesInCall es).map s.code.find?
  | .nil b => by simp [Expr.calleeNamesInCall]
  | .cons he hrest => by
    rw [hrest.callees, he.callees, Expr.calleeNamesInCall, List.map_append, List.append_assoc]

end

end Calls

/-- Names that have found routines find them later. -/
theorem Grows.map_find? {m m' : CodeModule} (h : Grows m m') (hm' : m'.Sound)
    {targets : List RoutineId} {names : List String}
    (htargets : targets.map some = names.map m.find?) : targets.map some = names.map m'.find? := by
  rw [htargets]
  apply List.map_congr_left
  intro name hname
  have hmem : m.find? name ∈ targets.map some := htargets ▸ List.mem_map_of_mem hname
  obtain ⟨id, -, hid⟩ := List.mem_map.mp hmem
  rw [← hid, h.find? hm' hid.symm]

/-! ## Where bodies come from -/

theorem lowerConstruct_definition (m : CodeModule) (f : Formula) :
    lowerConstruct m (.definition f) = ((lowerFormula m f).1.map some, (lowerFormula m f).2) := rfl

theorem lowerConstruct_expression (m : CodeModule) (f : Formula) :
    lowerConstruct m (.expression f) = ((lowerFormula m f).1.map some, (lowerFormula m f).2) := rfl

theorem lowerConstruct_declaration (m : CodeModule) (p : Prototype) :
    lowerConstruct m (.declaration p) =
      ((lowerPrototype m p).1.map some, (lowerPrototype m p).2) := rfl

section Origin

variable {m : CodeModule} {id : RoutineId} {r : Routine} {body : Body}

theorem lowerPrototype_body (p : Prototype) (hr : (lowerPrototype m p).2.get? id = some r)
    (hbody : r.body = some body) : m.get? id = some r := by
  rcases lowerPrototype_cases m p with ⟨hfind, hnew⟩ | ⟨other, -, -, hsame⟩ | ⟨e, hrefused, -⟩
  · rw [hnew] at hr
    rcases get?_of_declare hr with ⟨-, rfl⟩ | hold
    · simp at hbody
    · exact hold
  · rwa [hsame] at hr
  · rwa [hrefused] at hr

/-- A body behind a definition was there before, or is the code of the definition. -/
theorem lowerFormula_body (f : Formula) (hr : (lowerFormula m f).2.get? id = some r)
    (hbody : r.body = some body) :
    m.get? id = some r ∨ (lowerFormula m f).1 = .ok id ∧
      (callees body.instructions).map some = f.body.calleeNames.map (lowerFormula m f).2.find? := by
  rcases lowerFormula_cases m f with ⟨other, declared, ret, b, hp, hexpr, hok⟩ |
    ⟨e, m', herror, -, hsame⟩
  · obtain ⟨q, hget, hqname, hqbody, -⟩ := hp.get?
    rw [hok] at hr ⊢
    dsimp only at hr ⊢
    rw [get?_define hget] at hr
    split_ifs at hr with hother
    · right
      obtain rfl := Option.some.inj hr
      obtain rfl := Option.some.inj hbody
      refine ⟨by rw [hother], ?_⟩
      have hcallees := (lowerExpr_eq_ok_iff.mp hexpr).callees
      have hfind : (declared.define other (b.finish ret)).2.find? = declared.find? := by
        funext name
        exact find?_define hget _ name
      rw [hfind]
      simpa [callees, Builder.start, Builder.finish] using hcallees
    · left
      rwa [hp.get?_of_ne hother] at hr
  · left
    rw [herror] at hr
    rwa [hsame.get?] at hr

end Origin

namespace Session

variable {table : PrecedenceTable} {s s' later : Session} {event : Event}

/-- `Installs table s s' f id`: the step from `s` to `s'` reads the formula `f` and reports that its
    code stands at `id`. -/
inductive Installs (table : PrecedenceTable) (s s' : Session) : Formula → RoutineId → Prop
  | definition {f : Formula} {id : RoutineId} {rest : List Token}
      (hread : readConstruct table s.tokens = .ok (.definition f) rest)
      (hstep : s.step table = some (.definition id, s')) : Installs table s s' f id
  | expression {f : Formula} {id : RoutineId} {rest : List Token}
      (hread : readConstruct table s.tokens = .ok (.expression f) rest)
      (hstep : s.step table = some (.expression id, s')) : Installs table s s' f id

/-- A body behind a step was there before, or has been installed by the step. -/
theorem step_body (hstep : s.step table = some (event, s')) {id : RoutineId} {r : Routine}
    {body : Body} (hr : s'.code.get? id = some r) (hbody : r.body = some body) :
    s.code.get? id = some r ∨ ∃ f, Installs table s s' f id ∧
      (callees body.instructions).map some = f.body.calleeNames.map s'.code.find? := by
  rcases step_cases hstep with ⟨e, -, hcode⟩ | ⟨c, rest, hread, hevent, hcode⟩
  · rw [hcode] at hr
    exact .inl hr
  · cases c with
    | definition f =>
      rw [lowerConstruct_definition] at hevent hcode
      rw [hcode] at hr ⊢
      rcases lowerFormula_body f hr hbody with hold | ⟨hok, hcallees⟩
      · exact .inl hold
      · rw [hok] at hevent
        obtain rfl : event = .definition id := hevent
        exact .inr ⟨f, .definition hread hstep, hcallees⟩
    | expression f =>
      rw [lowerConstruct_expression] at hevent hcode
      rw [hcode] at hr ⊢
      rcases lowerFormula_body f hr hbody with hold | ⟨hok, hcallees⟩
      · exact .inl hold
      · rw [hok] at hevent
        obtain rfl : event = .expression id := hevent
        exact .inr ⟨f, .expression hread hstep, hcallees⟩
    | declaration p =>
      rw [hcode, lowerConstruct_declaration] at hr
      exact .inl (lowerPrototype_body p hr hbody)
    | separator =>
      rw [hcode] at hr
      exact .inl hr
    | endOfInput =>
      rw [hcode] at hr
      exact .inl hr

/-- Every body has been installed by a step, and it calls what the names in its source find. -/
theorem Later.origin {config : Config} {text : List Char} (h : Later table (start config text) s)
    {id : RoutineId} {r : Routine} {body : Body} (hr : s.code.get? id = some r)
    (hbody : r.body = some body) :
    ∃ before after f, Later table (start config text) before ∧ Installs table before after f id ∧
      Later table after s ∧
      (callees body.instructions).map some = f.body.calleeNames.map s.code.find? := by
  induction h with
  | refl => simp [start, CodeModule.get?, CodeModule.empty] at hr
  | @tail mid s hmid hnext ih =>
    obtain ⟨event, hstep⟩ := hnext
    rcases step_body hstep hr hbody with hold | ⟨f, hinstalls, hcallees⟩
    · obtain ⟨before, after, f, hbefore, hinstalls, hafter, hcallees⟩ := ih hold
      have hsound := (proper_of_start (hmid.tail ⟨event, hstep⟩)).sound
      exact ⟨before, after, f, hbefore, hinstalls, hafter.tail ⟨event, hstep⟩,
        (step_grows hstep).map_find? hsound hcallees⟩
    · exact ⟨mid, s, f, hmid, hinstalls, .refl, hcallees⟩

end Session

/-! ## What is reported -/

/-- The routine that an event reports. -/
def Event.routine? : Event → Option RoutineId
  | definition id => some id
  | declaration id => some id
  | expression id => some id
  | _ => none

section Reports

variable {m : CodeModule} {id : RoutineId}

theorem lowerPrototype_reports {p : Prototype} (h : (lowerPrototype m p).1 = .ok id) :
    ∃ r, (lowerPrototype m p).2.get? id = some r := by
  rcases lowerPrototype_cases m p with ⟨hfind, hnew⟩ | ⟨other, hfind, -, hsame⟩ | ⟨e, hrefused, -⟩
  · rw [hnew] at h ⊢
    obtain rfl := Except.ok.inj h
    exact ⟨_, by rw [get?_declare, if_pos rfl]⟩
  · rw [hsame] at h ⊢
    obtain rfl := Except.ok.inj h
    obtain ⟨r, hr, -⟩ := get?_of_find? hfind
    exact ⟨r, hr⟩
  · rw [hrefused] at h
    simp at h

theorem lowerFormula_reports {f : Formula} (h : (lowerFormula m f).1 = .ok id) :
    ∃ r, (lowerFormula m f).2.get? id = some r ∧ r.body ≠ none := by
  rcases lowerFormula_cases m f with ⟨other, declared, ret, b, hp, hexpr, hok⟩ |
    ⟨e, m', herror, -, -⟩
  · obtain ⟨q, hget, -⟩ := hp.get?
    rw [hok] at h ⊢
    obtain rfl := Except.ok.inj h
    exact ⟨_, (get?_define hget _ other).trans (if_pos rfl), by simp⟩
  · rw [herror] at h
    simp at h

/-- The event of a construct reports the routine that the construct yields. -/
theorem Event.result_of_routine? {c : Construct} {result : Except LowerError (Option RoutineId)}
    (h : (Event.ofResult c result).routine? = some id) : result = .ok (some id) := by
  cases result with
  | error e => simp [Event.ofResult, Event.routine?] at h
  | ok id? =>
    cases id? with
    | none => simp [Event.ofResult, Event.routine?] at h
    | some other => cases c <;> simpa [Event.ofResult, Event.routine?] using h

/-- A routine that a step reports is there, with a body unless it has only been declared. -/
theorem Session.step_reports {table : PrecedenceTable} {s s' : Session} {event : Event}
    (hstep : s.step table = some (event, s')) (hid : event.routine? = some id) :
    ∃ r, s'.code.get? id = some r ∧ (event ≠ .declaration id → r.body ≠ none) := by
  rcases step_cases hstep with ⟨e, rfl, -⟩ | ⟨c, rest, hread, rfl, hcode⟩
  · simp [Event.routine?] at hid
  · have hresult := Event.result_of_routine? hid
    rw [hcode]
    cases c with
    | definition f =>
      rw [lowerConstruct_definition] at hresult ⊢
      obtain ⟨other, hok, heq⟩ := Except.map_eq_ok_iff.mp hresult
      obtain rfl := Option.some.inj heq
      obtain ⟨r, hr, hbody⟩ := lowerFormula_reports hok
      exact ⟨r, hr, fun _ => hbody⟩
    | expression f =>
      rw [lowerConstruct_expression] at hresult ⊢
      obtain ⟨other, hok, heq⟩ := Except.map_eq_ok_iff.mp hresult
      obtain rfl := Option.some.inj heq
      obtain ⟨r, hr, hbody⟩ := lowerFormula_reports hok
      exact ⟨r, hr, fun _ => hbody⟩
    | declaration p =>
      rw [lowerConstruct_declaration] at hresult ⊢
      obtain ⟨other, hok, heq⟩ := Except.map_eq_ok_iff.mp hresult
      obtain rfl := Option.some.inj heq
      obtain ⟨r, hr⟩ := lowerPrototype_reports hok
      refine ⟨r, hr, fun hne => absurd ?_ hne⟩
      rw [hok]
      rfl
    | separator => simp [lowerConstruct] at hresult
    | endOfInput => simp [lowerConstruct] at hresult

end Reports

/-- For every text and every run over it: a routine that a step has reported stays, with its name
    and its number of parameters, and if the step has defined it, its text stays and stands in the
    text of the final module, between those of the routines before and behind it; a routine with a
    body stays as it is; its calls go to the routines that the names in its source find, now and
    later; and no two routines are referred to by the same text. -/
theorem reports_stay_true (config : Config) (text : String) :
    let later := Session.Later config.precedence
    let start := Session.start config text.toList
    let final := (compile config text).code
    (∀ s event s' t id, later start s → s.step config.precedence = some (event, s') → later s' t →
      event.routine? = some id →
      (∃ r r', s'.code.get? id = some r ∧ t.code.get? id = some r' ∧ r'.name = r.name ∧
        r'.arity = r.arity) ∧
      (event = .definition id ∨ event = .expression id →
        ∃ shown r before behind, s'.code.routineText? id = some shown ∧
          t.code.routineText? id = some shown ∧ final.live = before ++ (id, r) :: behind ∧
          final.text =
            final.header ++ final.entries before ++ "\n" ++ shown ++ final.entries behind)) ∧
    (∀ s t id r, later start s → later s t → s.code.get? id = some r → r.body ≠ none →
      t.code.get? id = some r) ∧
    (∀ s t id r body, later start s → later s t → s.code.get? id = some r → r.body = some body →
      ∃ before after f, later start before ∧
        Session.Installs config.precedence before after f id ∧ later after s ∧
        (callees body.instructions).map some = f.body.calleeNames.map t.code.find? ∧
        ∀ callee ∈ callees body.instructions, ∃ target, t.code.get? callee = some target) ∧
    (∀ s, later start s → (s.code.live.map fun p => s.code.globalName p.1).Nodup) := by
  intro later start final
  refine ⟨?_, ?_, ?_, ?_⟩
  · intro s event s' t id hs hstep ht hid
    obtain ⟨r, hr, hbody⟩ := Session.step_reports hstep hid
    have hs' : later start s' := hs.tail ⟨event, hstep⟩
    refine ⟨?_, ?_⟩
    · obtain ⟨r', hr', hname, harity, -⟩ := ht.grows.evolves id r hr
      exact ⟨r, r', hr, hr', hname, harity⟩
    · intro hevent
      have hsome : r.body ≠ none := hbody (by rcases hevent with rfl | rfl <;> simp)
      have hsound := (Session.proper_of_start hs').sound
      have hfinal : Grows s'.code final := (hs'.observe _).grows
      obtain ⟨q, hq, -⟩ := hfinal.evolves id r hr
      obtain ⟨before, behind, shown, hlive, hshown, htext⟩ := exists_entry hq
      rw [hfinal.routineText? hsound hr hsome] at hshown
      exact ⟨shown, q, before, behind, hshown, (ht.grows.routineText? hsound hr hsome).trans hshown,
        hlive, htext⟩
  · intro s t id r hs ht hr hsome
    obtain ⟨r', hr', -, -, hsame⟩ := ht.grows.evolves id r hr
    rw [hr', hsame hsome]
  · intro s t id r body hs ht hr hbody
    obtain ⟨before, after, f, hbefore, hinstalls, hafter, hcallees⟩ := hs.origin hr hbody
    have hsound := (Session.proper_of_start (hs.trans ht)).sound
    have hfound := ht.grows.map_find? hsound hcallees
    refine ⟨before, after, f, hbefore, hinstalls, hafter, hfound, ?_⟩
    intro callee hcallee
    have hmem : some callee ∈ f.body.calleeNames.map t.code.find? :=
      hfound ▸ List.mem_map_of_mem hcallee
    obtain ⟨name, -, hname⟩ := List.mem_map.mp hmem
    obtain ⟨target, htarget, -⟩ := get?_of_find? hname
    exact ⟨target, htarget⟩
  · intro s hs
    have hproper := Session.proper_of_start hs
    exact globalNames_nodup hproper.sound hproper.named

/-- An expression calls `f` before it is defined, and a fault in between takes a place that stays
    empty. The text of the expression is the same at the end as at first. -/
theorem reports_stay_true_forward :
    let text := "extern f(x) f(1) g def f(x) x"
    let final := (compile .standard text).code
    ∃ s s' shown, Session.Later .standard (.start .standard text.toList) s ∧
      s.step .standard = some (.expression ⟨1⟩, s') ∧
      s'.code.routineText? ⟨1⟩ = some shown ∧ final.routineText? ⟨1⟩ = some shown ∧
      (s'.code.get? ⟨0⟩).map (·.isDeclaration) = some true ∧
      (final.get? ⟨0⟩).map (·.isDeclaration) = some false ∧ final.get? ⟨2⟩ = none := by
  intro text final
  have hsteps : ((Session.start .standard text.toList).step .standard).bind (fun p =>
      (p.2.step .standard).map fun q => (q.1, (q.2.code.get? ⟨0⟩).map (·.isDeclaration))) =
        some (.expression ⟨1⟩, some true) := by decide +kernel
  have hfinal : (final.get? ⟨0⟩).map (·.isDeclaration) = some false ∧ final.get? ⟨2⟩ = none := by
    decide +kernel
  obtain ⟨⟨event, s⟩, hs, hsteps⟩ := Option.bind_eq_some_iff.mp hsteps
  obtain ⟨⟨event', s'⟩, hs', heq⟩ := Option.map_eq_some_iff.mp hsteps
  obtain ⟨rfl, hdeclared⟩ := Prod.mk.inj heq
  have hlater : Session.Later .standard (.start .standard text.toList) s :=
    .single ⟨event, hs⟩
  have hlater' : Session.Later .standard (.start .standard text.toList) s' :=
    hlater.tail ⟨_, hs'⟩
  have hend := hlater'.observe fun event _ => event.error?
  obtain ⟨shown, r, before, behind, hshown, hshown', -⟩ :=
    ((reports_stay_true .standard text).1 s _ s' _ ⟨1⟩ hlater hs' hend rfl).2 (.inr rfl)
  exact ⟨s, s', shown, hlater, hs', hshown, hshown', hdeclared, hfinal⟩

end Formulary

import Formulary.Proofs.Growth
import Formulary.Proofs.Phrases
import Formulary.Session.Step
import Mathlib.Logic.Relation

/-!
# Runs of sessions

A step of a session reports a fault of form and leaves the module alone, or makes code for the
construct that was read. So modules only grow along a run, and whatever every construct keeps holds
in every session that is reached from a text.

* `Session.Next`, `Session.Later`: one step, and any number of steps.
* `Session.runInduction`: induction along the steps of a run.
* `Session.step_cases`: what a step can do.
* `Session.Later.grows`: modules grow.
* `CodeModule.Proper`: a sound module in which all names are words and no two names clash.
* `Session.proper_of_start`: every session that is reached from a text has a proper module.
-/

namespace Formulary

open CodeModule

/-! ## Steps -/

namespace Session

variable {table : PrecedenceTable} {s s' later : Session} {event : Event}

/-- The second session is one step behind the first one. -/
def Next (table : PrecedenceTable) (s s' : Session) : Prop :=
  ∃ event, s.step table = some (event, s')

/-- The second session is reached from the first one by steps. -/
def Later (table : PrecedenceTable) : Session → Session → Prop := Relation.ReflTransGen (Next table)

theorem step_eq_none_iff : s.step table = none ↔ s.tokens = [] := by
  unfold step
  split
  · next hempty => simpa using hempty
  · next hne =>
    refine iff_of_false ?_ (by simpa using hne)
    simp only
    split <;> simp

/-- Induction along the steps of a run, from its end. -/
@[elab_as_elim]
theorem runInduction {motive : Session → Prop} (table : PrecedenceTable)
    (done : ∀ s, s.step table = none → motive s)
    (step : ∀ s event after, s.step table = some (event, after) → motive after → motive s)
    (s : Session) : motive s := by
  induction hn : s.tokens.length using Nat.strongRecOn generalizing s with
  | ind n ih =>
    rcases hstep : s.step table with _ | ⟨event, after⟩
    · exact done s hstep
    · exact step s event after hstep (ih _ (hn ▸ step_length_lt hstep) after rfl)

/-- What is reported of a run is reported of its steps. -/
theorem observe_eq_map {α : Type} (table : PrecedenceTable) (report : Event → Session → α)
    (s : Session) :
    s.observe table report =
      ((s.observe table Prod.mk).1.map fun step => report step.1 step.2,
        (s.observe table Prod.mk).2) := by
  induction s using runInduction table with
  | done s hstep =>
    rw [observe_of_none _ hstep, observe_of_none _ hstep]
    rfl
  | step s event after hstep ih =>
    rw [observe_of_some _ hstep, observe_of_some _ hstep, ih]
    rfl

theorem step_suffix (h : s.step table = some (event, s')) : s'.tokens <:+ s.tokens := by
  have hresume : (readConstruct table s.tokens).resume <:+ s.tokens := by
    have hsuffix := readConstruct_suffix table s.tokens
    unfold Parsed.resume
    split
    · exact hsuffix
    · exact (List.tail_suffix _).trans hsuffix
  unfold step at h
  split at h
  · simp at h
  · simp only at h
    split at h
    · obtain ⟨-, rfl⟩ := Prod.mk.inj (Option.some.inj h)
      exact hresume
    · obtain ⟨-, rfl⟩ := Prod.mk.inj (Option.some.inj h)
      exact hresume

/-- A step reports a fault of form, or makes code for the construct that is read. -/
theorem step_cases (h : s.step table = some (event, s')) :
    (∃ e, event = .error (.parse e) ∧ s'.code = s.code) ∨
      ∃ c rest, readConstruct table s.tokens = .ok c rest ∧
        event = .ofResult c (lowerConstruct s.code c).1 ∧
        s'.code = (lowerConstruct s.code c).2 := by
  unfold step at h
  split at h
  · simp at h
  · simp only at h
    split at h
    · next e he =>
      obtain ⟨rfl, rfl⟩ := Prod.mk.inj (Option.some.inj h)
      exact .inl ⟨e, rfl, rfl⟩
    · next c hc =>
      obtain ⟨rfl, rfl⟩ := Prod.mk.inj (Option.some.inj h)
      exact .inr ⟨c, _, congrArg₂ Parsed.mk hc rfl, rfl, rfl⟩

theorem step_grows (h : s.step table = some (event, s')) : Grows s.code s'.code := by
  rcases step_cases h with ⟨e, -, hcode⟩ | ⟨c, rest, -, -, hcode⟩
  · rw [hcode]
    exact .refl _
  · rw [hcode]
    exact lowerConstruct_grows s.code c

theorem Later.grows (h : Later table s later) : Grows s.code later.code := by
  induction h with
  | refl => exact .refl _
  | tail _ hnext ih =>
    obtain ⟨event, hstep⟩ := hnext
    exact ih.trans (step_grows hstep)

theorem later_observe {α : Type} (report : Event → Session → α) (s : Session) :
    Later table s (s.observe table report).2 := by
  induction s using runInduction table with
  | done s hstep =>
    rw [observe_of_none report hstep]
    exact .refl
  | step s event after hstep ih =>
    rw [observe_of_some report hstep]
    exact .head ⟨event, hstep⟩ ih

/-- All sessions of a run have the same end. -/
theorem Later.observe_eq {α : Type} (report : Event → Session → α) (h : Later table s later) :
    (later.observe table report).2 = (s.observe table report).2 := by
  induction h with
  | refl => rfl
  | tail _ hnext ih =>
    obtain ⟨event, hstep⟩ := hnext
    rw [← ih, observe_of_some report hstep]

theorem Later.observe {α : Type} (report : Event → Session → α) (h : Later table s later) :
    Later table later (s.observe table report).2 := by
  rw [← h.observe_eq report]
  exact later_observe report later

end Session

/-! ## The names that are read -/

/-- The prototype of a construct. -/
def Construct.proto? : Construct → Option Prototype
  | .definition f => some f.proto
  | .expression f => some f.proto
  | .declaration p => some p
  | _ => none

theorem mem_of_readParams {done params : List String} {tokens rest : List Token}
    (h : readParams done tokens = .ok params rest) :
    ∀ p ∈ params, p ∈ done ∨ .identifier p ∈ tokens := by
  fun_induction readParams done tokens with
  | case1 done name tail ih =>
    intro p hp
    rcases ih h p hp with hdone | htail
    · rcases List.mem_cons.mp hdone with rfl | hdone
      · exact .inr (by simp)
      · exact .inl hdone
    · exact .inr (List.mem_cons_of_mem _ htail)
  | case2 done tail =>
    obtain ⟨rfl, -⟩ := Parsed.ok_inj.mp h
    exact fun p hp => .inl (List.mem_reverse.mp hp)
  | case3 => exact (Parsed.fail_ne_ok _ _ _ _ h).elim

/-- The names of a prototype stand among the tokens. -/
theorem mem_of_readPrototype {p : Prototype} {tokens rest : List Token}
    (h : readPrototype tokens = .ok p rest) :
    .identifier p.name ∈ tokens ∧ ∀ q ∈ p.params, .identifier q ∈ tokens := by
  unfold readPrototype at h
  split at h
  · next name tail =>
    unfold readSignature at h
    split at h
    · next inner =>
      obtain ⟨params, hparams, rfl⟩ := Parsed.map_eq_ok_iff.mp h
      refine ⟨by simp, ?_⟩
      intro q hq
      rcases mem_of_readParams hparams q hq with hdone | hmem
      · simp at hdone
      · exact List.mem_cons_of_mem _ (List.mem_cons_of_mem _ hmem)
    · exact (Parsed.fail_ne_ok _ _ _ _ h).elim
  · exact (Parsed.fail_ne_ok _ _ _ _ h).elim

/-- The names of a construct stand among the tokens, unless it has none. -/
theorem mem_of_readConstruct {table : PrecedenceTable} {c : Construct} {p : Prototype}
    {tokens rest : List Token} (h : readConstruct table tokens = .ok c rest)
    (hp : c.proto? = some p) :
    p = .anonymous ∨ .identifier p.name ∈ tokens ∧ ∀ q ∈ p.params, .identifier q ∈ tokens := by
  unfold readConstruct at h
  split at h
  · obtain ⟨rfl, -⟩ := Parsed.ok_inj.mp h
    simp [Construct.proto?] at hp
  · obtain ⟨rfl, -⟩ := Parsed.ok_inj.mp h
    simp [Construct.proto?] at hp
  · next tail =>
    obtain ⟨proto, inner, hproto, hbody⟩ := Parsed.bind_eq_ok_iff.mp h
    obtain ⟨body, -, rfl⟩ := Parsed.map_eq_ok_iff.mp hbody
    obtain rfl := Option.some.inj hp
    obtain ⟨hname, hparams⟩ := mem_of_readPrototype hproto
    exact .inr ⟨List.mem_cons_of_mem _ hname, fun q hq => List.mem_cons_of_mem _ (hparams q hq)⟩
  · next tail =>
    obtain ⟨proto, hproto, rfl⟩ := Parsed.map_eq_ok_iff.mp h
    obtain rfl := Option.some.inj hp
    obtain ⟨hname, hparams⟩ := mem_of_readPrototype hproto
    exact .inr ⟨List.mem_cons_of_mem _ hname, fun q hq => List.mem_cons_of_mem _ (hparams q hq)⟩
  · obtain ⟨body, -, rfl⟩ := Parsed.map_eq_ok_iff.mp h
    exact .inl (Option.some.inj hp).symm

/-! ## Proper modules -/

/-- The name is empty or a word, and the parameters are words. -/
structure Prototype.WellNamed (p : Prototype) : Prop where
  name : p.name = "" ∨ isWord p.name.toList = true
  params : ∀ q ∈ p.params, isWord q.toList = true

theorem Prototype.wellNamed_anonymous : anonymous.WellNamed := ⟨.inl rfl, by simp [anonymous]⟩

/-- A sound module in which routines have words for names or no name, and in each of whose bodies
    the names of parameters and results are words, no two of them equal. -/
structure CodeModule.Proper (m : CodeModule) : Prop where
  sound : m.Sound
  named : m.WellNamed
  nodup : ∀ id r body, m.get? id = some r → r.body = some body →
    (localNames r.params body.instructions).Nodup
  words : ∀ id r body, m.get? id = some r → r.body = some body →
    ∀ name ∈ localNames r.params body.instructions, isWord name.toList = true

namespace CodeModule.Proper

variable {m m' declared : CodeModule} {p : Prototype} {id : RoutineId}

theorem empty (name : String) : (CodeModule.empty name).Proper := by
  have hnone : ∀ id, (CodeModule.empty name).get? id = none := by
    intro id
    simp [CodeModule.get?, CodeModule.empty]
  refine ⟨.empty name, ?_, ?_, ?_⟩
  · intro id r hr
    simp [hnone] at hr
  · intro id r body hr
    simp [hnone] at hr
  · intro id r body hr
    simp [hnone] at hr

theorem of_sameRoutines (h : m.Proper) (hsame : SameRoutines m m') : m'.Proper := by
  refine ⟨h.sound.of_sameRoutines hsame, ?_, ?_, ?_⟩
  · intro id r hr
    exact h.named id r (hsame.get? id ▸ hr)
  · intro id r body hr
    exact h.nodup id r body (hsame.get? id ▸ hr)
  · intro id r body hr
    exact h.words id r body (hsame.get? id ▸ hr)

/-- A new routine has a proper name and no body. -/
theorem prepared (h : m.Proper) (hp : Prepared m p id declared) (hnames : p.WellNamed) :
    declared.Proper := by
  -- a routine with a body was there before
  have hold : ∀ other r body, declared.get? other = some r → r.body = some body →
      m.get? other = some r := by
    intro other r body hr hbody
    cases hp with
    | declared => exact hr
    | fresh hfind =>
      rcases get?_of_declare hr with ⟨-, rfl⟩ | hold
      · simp at hbody
      · exact hold
  refine ⟨h.sound.prepared hp, ?_, ?_, ?_⟩
  · intro other r hr
    cases hp with
    | declared => exact h.named other r hr
    | fresh hfind =>
      rcases get?_of_declare hr with ⟨-, rfl⟩ | hold
      · exact hnames.name
      · exact h.named other r hold
  · intro other r body hr hbody
    exact h.nodup other r body (hold other r body hr hbody) hbody
  · intro other r body hr hbody
    exact h.words other r body (hold other r body hr hbody) hbody

/-- The new body has names of its own. -/
theorem define (h : declared.Proper) (hp : Prepared m p id declared) (hnames : p.WellNamed)
    {e : Expr} {ret : Value} {b : Builder}
    (hexpr : lowerExpr ⟨declared, p.params⟩ e (.start p.params) = .ok (ret, b)) :
    (declared.define id (b.finish ret)).2.Proper := by
  obtain ⟨r, hget, -⟩ := hp.get?
  have hlen := (sound_of_lowerExpr hexpr).1
  have hb := (lowerExpr_eq_ok_iff.mp hexpr).named (Builder.named_start hnames.params)
  refine ⟨h.sound.define hp hlen (hp.verify_define hexpr), ?_, ?_, ?_⟩
  · intro other q hq
    obtain ⟨q', hq', hname⟩ := get?_of_define hget hq
    rw [← hname]
    exact h.named other q' hq'
  · intro other q body hq hbody
    rw [get?_define hget] at hq
    split_ifs at hq with hother
    · obtain rfl := Option.some.inj hq
      obtain rfl := Option.some.inj hbody
      exact hb.nodup
    · exact h.nodup other q body hq hbody
  · intro other q body hq hbody
    rw [get?_define hget] at hq
    split_ifs at hq with hother
    · obtain rfl := Option.some.inj hq
      obtain rfl := Option.some.inj hbody
      exact hb.words
    · exact h.words other q body hq hbody

theorem lowerPrototype (h : m.Proper) (hnames : p.WellNamed) :
    (lowerPrototype m p).2.Proper := by
  rcases lowerPrototype_cases m p with ⟨hfind, hnew⟩ | ⟨id, -, -, hsame⟩ | ⟨e, hrefused, -⟩
  · rw [hnew]
    exact h.prepared (.fresh hfind) hnames
  · rw [hsame]
    exact h
  · rw [hrefused]
    exact h

theorem lowerFormula (h : m.Proper) {f : Formula} (hnames : f.proto.WellNamed) :
    (lowerFormula m f).2.Proper := by
  rcases lowerFormula_cases m f with ⟨id, declared, ret, b, hp, hexpr, hok⟩ |
    ⟨e, m', herror, -, hsame⟩
  · rw [hok]
    exact (h.prepared hp hnames).define hp hnames hexpr
  · rw [herror]
    exact h.of_sameRoutines hsame

/-- Constructs with proper names keep a module proper. -/
theorem lowerConstruct (h : m.Proper) {c : Construct}
    (hnames : ∀ p, c.proto? = some p → p.WellNamed) : (lowerConstruct m c).2.Proper := by
  cases c with
  | definition f => exact h.lowerFormula (hnames f.proto rfl)
  | expression f => exact h.lowerFormula (hnames f.proto rfl)
  | declaration p => exact h.lowerPrototype (hnames p rfl)
  | separator => exact h
  | endOfInput => exact h

end CodeModule.Proper

/-! ## Sessions over texts -/

/-- The identifiers ahead are words, and the module is proper. -/
structure Session.Proper (s : Session) : Prop where
  identifiers : ∀ name, .identifier name ∈ s.tokens → IsIdentifier name
  code : s.code.Proper

namespace Session

variable {table : PrecedenceTable} {s s' later : Session} {event : Event}

theorem proper_start (config : Config) (text : List Char) : (start config text).Proper :=
  ⟨fun _ => isIdentifier_of_mem_tokens, .empty config.moduleName⟩

theorem Proper.step (h : s.Proper) (hstep : s.step table = some (event, s')) : s'.Proper := by
  refine ⟨fun name hname => h.identifiers name ((step_suffix hstep).subset hname), ?_⟩
  rcases step_cases hstep with ⟨e, -, hcode⟩ | ⟨c, rest, hread, -, hcode⟩
  · rw [hcode]
    exact h.code
  · rw [hcode]
    refine h.code.lowerConstruct fun p hp => ?_
    rcases mem_of_readConstruct hread hp with rfl | ⟨hname, hparams⟩
    · exact Prototype.wellNamed_anonymous
    · exact ⟨.inr (h.identifiers _ hname).word, fun q hq => (h.identifiers _ (hparams q hq)).word⟩

theorem Later.proper (h : Later table s later) (hs : s.Proper) : later.Proper := by
  induction h with
  | refl => exact hs
  | tail _ hnext ih =>
    obtain ⟨event, hstep⟩ := hnext
    exact ih.step hstep

theorem proper_of_start {config : Config} {text : List Char}
    (h : Later table (start config text) s) : s.code.Proper :=
  (h.proper (proper_start config text)).code

end Session

end Formulary

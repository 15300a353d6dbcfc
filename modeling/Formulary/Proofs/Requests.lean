import Formulary.Proofs.Soundness

/-!
# Modules stay sound

A module is changed by requests alone. No request takes a routine away that a body may call, or
changes the number of its parameters, and a body that is there stays as it is. So all bodies of a
module pass the check at any time, and a name belongs to one routine only.

* `Evolves`: routines stay, and bodies stay as they are.
* `CodeModule.Sound`: names are unique, and all bodies pass the check.
* `Request`, `performAll`: sequences of requests.
* `performAll_sound`: every sequence of requests leads to a sound module.
-/

namespace Formulary

open CodeModule

/-! ## Routines stay -/

/-- Every routine of the first module stands at the same place in the second one, with the same
    name and as many parameters. If it has a body, it is the same routine. -/
def Evolves (m m' : CodeModule) : Prop :=
  ∀ id r, m.get? id = some r →
    ∃ r', m'.get? id = some r' ∧ r'.name = r.name ∧ r'.arity = r.arity ∧ (r.body ≠ none → r' = r)

section Evolution

variable {m m₁ declared : CodeModule} {p : Prototype} {id : RoutineId}

theorem Evolves.of_get? (h : ∀ id r, m.get? id = some r → m₁.get? id = some r) : Evolves m m₁ :=
  fun id r hr => ⟨r, h id r hr, rfl, rfl, fun _ => rfl⟩

theorem SameRoutines.evolves (h : SameRoutines m m₁) : Evolves m m₁ :=
  .of_get? fun id r hr => by rw [h.get?, hr]

theorem Prepared.evolves (h : Prepared m p id declared) : Evolves m declared :=
  .of_get? fun _ _ => h.get?_of_some

/-- The prepared routine gets its body, and all others stay as they are. -/
theorem Prepared.evolves_define (h : Prepared m p id declared) {finished : Finished}
    (hlen : finished.params.length = p.params.length) :
    Evolves declared (declared.define id finished).2 := by
  obtain ⟨r, hget, -, hbody, harity⟩ := h.get?
  intro other r' hr'
  rw [get?_define hget]
  split_ifs with hother
  · rw [hother, hget] at hr'
    obtain rfl := Option.some.inj hr'
    exact ⟨_, rfl, rfl, hlen.trans harity.symm, fun hsome => absurd hbody hsome⟩
  · exact ⟨r', hr', rfl, rfl, fun _ => rfl⟩

theorem Evolves.arity? (h : Evolves m m₁) {id : RoutineId} {n : Nat} (hn : m.arity? id = some n) :
    m₁.arity? id = some n := by
  obtain ⟨r, hr, rfl⟩ := Option.map_eq_some_iff.mp hn
  obtain ⟨r', hr', -, harity, -⟩ := h id r hr
  rw [CodeModule.arity?, hr', Option.map_some, harity]

/-- A body that has passed the check would pass it again. -/
theorem Evolves.verify (h : Evolves m m₁) (hverify : m.verify id = .ok ()) :
    m₁.verify id = .ok () := by
  obtain ⟨r, body, hr, hbody, hsound⟩ := verify_eq_ok_iff.mp hverify
  obtain ⟨r', hr', -, -, hsame⟩ := h id r hr
  obtain rfl := hsame (by simp [hbody])
  exact verify_eq_ok_iff.mpr ⟨r', body, hr', hbody, hsound.mono fun _ _ => h.arity?⟩

end Evolution

/-! ## Sound modules -/

/-- No two routines share a name, those without one apart, and every body passes the check. -/
structure CodeModule.Sound (m : CodeModule) : Prop where
  unique : ∀ id id' r r', m.get? id = some r → m.get? id' = some r' → r.name = r'.name →
    r.name ≠ "" → id = id'
  checked : ∀ id r, m.get? id = some r → r.body ≠ none → m.verify id = .ok ()

namespace CodeModule.Sound

variable {m m' declared : CodeModule} {p : Prototype} {id : RoutineId}

theorem empty (name : String) : (CodeModule.empty name).Sound := by
  refine ⟨?_, ?_⟩
  · intro id id' r r' hr
    simp [CodeModule.get?, CodeModule.empty] at hr
  · intro id r hr
    simp [CodeModule.get?, CodeModule.empty] at hr

theorem of_sameRoutines (h : m.Sound) (hsame : SameRoutines m m') : m'.Sound := by
  refine ⟨?_, ?_⟩
  · intro id id' r r' hr hr'
    rw [hsame.get?] at hr hr'
    exact h.unique id id' r r' hr hr'
  · intro id r hr hbody
    rw [hsame.get?] at hr
    exact hsame.evolves.verify (h.checked id r hr hbody)

theorem body_sound (h : m.Sound) {r : Routine} {body : Body} (hr : m.get? id = some r)
    (hbody : r.body = some body) : body.Sound m r.arity := by
  have hverify := h.checked id r hr (by simp [hbody])
  obtain ⟨r', body', hr', hbody', hsound⟩ := verify_eq_ok_iff.mp hverify
  obtain rfl := Option.some.inj (hr.symm.trans hr')
  obtain rfl := Option.some.inj (hbody.symm.trans hbody')
  exact hsound

/-- A new routine has a name that no other one has, and no body to be checked. -/
theorem prepared (h : m.Sound) (hp : Prepared m p id declared) : declared.Sound := by
  cases hp with
  | declared => exact h
  | fresh hfind =>
    have hevolves := (Prepared.fresh hfind).evolves
    refine ⟨?_, ?_⟩
    · intro id id' r r' hr hr' hname hne
      -- each of the two is the new routine or one from before
      rcases get?_of_declare hr with ⟨rfl, rfl⟩ | hold
      · rcases get?_of_declare hr' with ⟨rfl, -⟩ | hold'
        · rfl
        · rw [show p.name = r'.name from hname] at hfind hne
          exact absurd (name_eq_empty_of_find? hold' hfind) hne
      · rcases get?_of_declare hr' with ⟨rfl, rfl⟩ | hold'
        · rw [show p.name = r.name from hname.symm] at hfind
          exact absurd (name_eq_empty_of_find? hold hfind) hne
        · exact h.unique id id' r r' hold hold' hname hne
    · intro id r hr hbody
      rcases get?_of_declare hr with ⟨-, rfl⟩ | hold
      · exact absurd rfl hbody
      · exact hevolves.verify (h.checked id r hold hbody)

/-- The new body has passed the check, and the others still pass it. -/
theorem define (h : declared.Sound) (hp : Prepared m p id declared) {finished : Finished}
    (hlen : finished.params.length = p.params.length)
    (hverify : (declared.define id finished).2.verify id = .ok ()) :
    (declared.define id finished).2.Sound := by
  obtain ⟨r, hget, -⟩ := hp.get?
  refine ⟨?_, ?_⟩
  · intro a a' q q' hq hq' hname hne
    obtain ⟨s, hs, hsname⟩ := get?_of_define hget hq
    obtain ⟨s', hs', hsname'⟩ := get?_of_define hget hq'
    refine h.unique a a' s s' hs hs' ?_ (hsname ▸ hne)
    rw [hsname, hsname', hname]
  · intro other q hq hbody
    by_cases hother : other = id
    · rw [hother, hverify]
    · rw [get?_define hget, if_neg hother] at hq
      exact (hp.evolves_define hlen).verify (h.checked other q hq hbody)

end CodeModule.Sound

/-! ## One request -/

section Step

variable {m : CodeModule}

theorem lowerPrototype_sound (h : m.Sound) (p : Prototype) : (lowerPrototype m p).2.Sound := by
  rcases lowerPrototype_cases m p with ⟨hfind, hnew⟩ | ⟨id, -, -, hsame⟩ | ⟨e, hrefused, -⟩
  · rw [hnew]
    exact h.prepared (.fresh hfind)
  · rw [hsame]
    exact h
  · rw [hrefused]
    exact h

theorem lowerFormula_sound (h : m.Sound) (f : Formula) : (lowerFormula m f).2.Sound := by
  rcases lowerFormula_cases m f with ⟨id, declared, ret, b, hp, hexpr, hok⟩ |
    ⟨e, m', herror, -, hsame⟩
  · rw [hok]
    exact (h.prepared hp).define hp (sound_of_lowerExpr hexpr).1 (hp.verify_define hexpr)
  · rw [herror]
    exact h.of_sameRoutines hsame

theorem lowerPrototype_isOfSource (p : Prototype) {e : LowerError}
    (h : (lowerPrototype m p).1 = .error e) : e.IsOfSource := by
  rcases lowerPrototype_cases m p with ⟨-, hnew⟩ | ⟨id, -, -, hsame⟩ | ⟨e', hrefused, hsource⟩
  · rw [hnew] at h
    simp at h
  · rw [hsame] at h
    simp at h
  · rw [hrefused] at h
    exact Except.error.inj h ▸ hsource

theorem lowerFormula_isOfSource (f : Formula) {e : LowerError}
    (h : (lowerFormula m f).1 = .error e) : e.IsOfSource := by
  rcases lowerFormula_cases m f with ⟨id, declared, ret, b, -, -, hok⟩ |
    ⟨e', m', herror, hsource, -⟩
  · rw [hok] at h
    simp at h
  · rw [herror] at h
    exact Except.error.inj h ▸ hsource

end Step

/-- A request to a module: a construct, or only a part of one. -/
inductive Request
  | construct (c : Construct)
  | prototype (p : Prototype)
  | formula (f : Formula)

/-- Performs a request. Yields the routine that was declared or defined, if any. -/
def Request.perform (m : CodeModule) : Request → Except LowerError (Option RoutineId) × CodeModule
  | construct c => lowerConstruct m c
  | prototype p => ((lowerPrototype m p).1.map some, (lowerPrototype m p).2)
  | formula f => ((lowerFormula m f).1.map some, (lowerFormula m f).2)

/-- The module behind requests that are performed in order, whether they succeed or not. -/
def performAll (m : CodeModule) (requests : List Request) : CodeModule :=
  requests.foldl (fun m request => (request.perform m).2) m

theorem Except.map_eq_ok_iff {ε α β : Type} {x : Except ε α} {f : α → β} {b : β} :
    x.map f = .ok b ↔ ∃ a, x = .ok a ∧ f a = b := by
  cases x <;> simp [Except.map]

theorem Except.map_eq_error_iff {ε α β : Type} {x : Except ε α} {f : α → β} {e : ε} :
    x.map f = .error e ↔ x = .error e := by
  cases x <;> simp [Except.map]

/-- A request defines a routine, declares one, or does nothing. -/
theorem Request.perform_cases (m : CodeModule) (request : Request) :
    (∃ f, request.perform m = ((lowerFormula m f).1.map some, (lowerFormula m f).2)) ∨
      (∃ p, request.perform m = ((lowerPrototype m p).1.map some, (lowerPrototype m p).2)) ∨
      request.perform m = (.ok none, m) := by
  cases request with
  | construct c =>
    cases c with
    | definition f => exact .inl ⟨f, rfl⟩
    | expression f => exact .inl ⟨f, rfl⟩
    | declaration p => exact .inr (.inl ⟨p, rfl⟩)
    | separator => exact .inr (.inr rfl)
    | endOfInput => exact .inr (.inr rfl)
  | prototype p => exact .inr (.inl ⟨p, rfl⟩)
  | formula f => exact .inl ⟨f, rfl⟩

theorem Request.perform_sound {m : CodeModule} (h : m.Sound) (request : Request) :
    (request.perform m).2.Sound := by
  rcases request.perform_cases m with ⟨f, hf⟩ | ⟨p, hp⟩ | hnone
  · rw [hf]
    exact lowerFormula_sound h f
  · rw [hp]
    exact lowerPrototype_sound h p
  · rw [hnone]
    exact h

theorem Request.perform_isOfSource {m : CodeModule} (request : Request) {e : LowerError}
    (h : (request.perform m).1 = .error e) : e.IsOfSource := by
  rcases request.perform_cases m with ⟨f, hf⟩ | ⟨p, hp⟩ | hnone
  · rw [hf] at h
    exact lowerFormula_isOfSource f (Except.map_eq_error_iff.mp h)
  · rw [hp] at h
    exact lowerPrototype_isOfSource p (Except.map_eq_error_iff.mp h)
  · rw [hnone] at h
    simp at h

/-- A request that fails changes no routine. -/
theorem Request.perform_error {m m' : CodeModule} {request : Request} {e : LowerError}
    (h : request.perform m = (.error e, m')) : SameRoutines m m' := by
  rcases request.perform_cases m with ⟨f, hf⟩ | ⟨p, hp⟩ | hnone
  · rw [hf] at h
    obtain ⟨herror, rfl⟩ := Prod.mk.inj h
    exact (lowerFormula_eq_error (Prod.ext (Except.map_eq_error_iff.mp herror) rfl)).1
  · rw [hp] at h
    obtain ⟨herror, rfl⟩ := Prod.mk.inj h
    rcases lowerPrototype_cases m p with ⟨-, hnew⟩ | ⟨id, -, -, hsame⟩ | ⟨e', hrefused, -⟩
    · rw [hnew] at herror
      simp [Except.map] at herror
    · rw [hsame]
      exact .refl m
    · rw [hrefused]
      exact .refl m
  · rw [hnone] at h
    simp at h

/-! ## All requests -/

theorem performAll_preserves_sound {m : CodeModule} (h : m.Sound) (requests : List Request) :
    (performAll m requests).Sound := by
  induction requests generalizing m with
  | nil => exact h
  | cons request rest ih => exact ih (Request.perform_sound h request)

/-- Whatever requests have been made: no two live routines share a name that is not empty, every
    live routine with a body passes the check, a routine is declared only if its name is not in
    use, and no next request fails the check. -/
theorem performAll_sound (name : String) (requests : List Request) :
    let m := performAll (.empty name) requests
    (∀ id id' r r', (id, r) ∈ m.live → (id', r') ∈ m.live → r.name = r'.name → r.name ≠ "" →
        id = id') ∧
      (∀ id r, (id, r) ∈ m.live → r.body ≠ none → m.verify id = .ok ()) ∧
      (∀ p, (lowerPrototype m p).2 = m ∨
        m.find? p.name = none ∧ (lowerPrototype m p).2 = (m.declare p.name p.params).2) ∧
      ∀ (request : Request) routine reason,
        (request.perform m).1 ≠ .error (.verification routine reason) := by
  intro m
  have hsound : m.Sound := performAll_preserves_sound (.empty name) requests
  refine ⟨?_, ?_, ?_, ?_⟩
  · intro id id' r r' hr hr'
    rw [mem_live_iff] at hr hr'
    exact hsound.unique id id' r r' hr hr'
  · intro id r hr
    rw [mem_live_iff] at hr
    exact hsound.checked id r hr
  · intro p
    rcases lowerPrototype_cases m p with ⟨hfind, hnew⟩ | ⟨id, -, -, hsame⟩ | ⟨e, hrefused, -⟩
    · exact .inr ⟨hfind, by rw [hnew]⟩
    · exact .inl (by rw [hsame])
    · exact .inl (by rw [hrefused])
  · intro request routine reason h
    exact request.perform_isOfSource h routine reason rfl

end Formulary

import Formulary.Code.Listing
import Formulary.Proofs.Renumbering

/-!
# Failed constructs leave no trace

A construct that fails changes no routine. It can take a place that no routine gets afterwards, so
that later routines stand at other places than they would otherwise. Nothing else shows that it has
been there: without the failed constructs, the others succeed all the same, and lead to the same
routines in the same order and to the same text.

* `CodeModule.anonymousBefore_eq`: numbers of nameless routines count live routines.
* `Renumbered.live_eq`, `Renumbered.text_eq`: the same routines in order have the same text.
* `lowerAll`, `accepted`: sequences of constructs, and those that succeed.
* `lowerAll_accepted`: constructs that succeed do so without the others.
-/

namespace Formulary

open CodeModule

/-! ## Numbers of nameless routines -/

theorem countP_take_eq {α : Type} (q : α → Bool) (l : List α) (n k : Nat) :
    (l.take n).countP q = (l.zipIdx k).countP fun p => decide (p.2 < n + k) && q p.1 := by
  induction l generalizing n k with
  | nil => simp
  | cons a l ih =>
    cases n with
    | zero =>
      have hnone : ((a :: l).zipIdx k).countP (fun p => decide (p.2 < 0 + k) && q p.1) = 0 := by
        rw [List.countP_eq_zero]
        intro p hp
        have hle := List.le_snd_of_mem_zipIdx hp
        simp [hle]
      rw [hnone]
      rfl
    | succ n =>
      rw [List.take_succ_cons, List.zipIdx_cons, List.countP_cons, List.countP_cons, ih n (k + 1)]
      have hsum : n + (k + 1) = n + 1 + k := by omega
      have hfirst : k < n + 1 + k := by omega
      rw [hsum]
      simp [hfirst]

/-- The nameless routines before a place are counted among the live ones. -/
theorem CodeModule.anonymousBefore_eq (m : CodeModule) (id : RoutineId) :
    m.anonymousBefore id =
      m.live.countP fun p => decide (p.1.index < id.index) && p.2.isAnonymous := by
  unfold anonymousBefore live
  rw [countP_take_eq _ _ _ 0, List.countP_filterMap]
  congr 1
  funext p
  obtain ⟨slot, i⟩ := p
  cases slot <;> simp

/-! ## The same text -/

section Text

variable {ρ : RoutineId → RoutineId} {m m' : CodeModule}

theorem Body.typeOf?_renumber (body : Body) (v : Value) :
    (body.renumber ρ).typeOf? v = body.typeOf? v := by
  cases v with
  | result position =>
    simp only [typeOf?, Body.renumber, Array.getElem?_map, Option.map_map]
    congr 1
    funext i
    exact i.operation.resultType_renumber
  | constant x => rfl
  | truth flag => rfl
  | param index => rfl

theorem Body.operandText_renumber (body : Body) (params : List String) (v : Value) :
    (body.renumber ρ).operandText params v = body.operandText params v := by
  cases v with
  | result position =>
    simp only [operandText, Body.renumber, Array.getElem?_map, Option.map_map]
    rfl
  | constant x => rfl
  | truth flag => rfl
  | param index => rfl

theorem Body.typedText_renumber (body : Body) (params : List String) (v : Value) :
    (body.renumber ρ).typedText params v = body.typedText params v := by
  rw [typedText, typedText, typeOf?_renumber, operandText_renumber]

theorem Body.returnLine_renumber (body : Body) (params : List String) :
    (body.renumber ρ).returnLine params = body.returnLine params := by
  simp only [returnLine, typedText_renumber]
  rfl

/-- The live routines are the same, in the same order. -/
theorem Renumbered.live_eq (h : Renumbered ρ m m') :
    m'.live = m.live.map fun p => (ρ p.1, p.2.renumber ρ) := by
  symm
  apply eq_live
  · rw [List.pairwise_map]
    apply m.live_pairwise.imp_of_mem
    intro p q hp hq hlt
    rw [mem_live_iff] at hp hq
    exact h.mono p.1 q.1 p.2 q.2 hp hq hlt
  · intro id' r'
    constructor
    · intro hmem
      obtain ⟨p, hp, heq⟩ := List.mem_map.mp hmem
      obtain ⟨rfl, rfl⟩ := Prod.mk.inj heq
      exact h.get? p.1 p.2 ((mem_live_iff m p.1 p.2).mp hp)
    · intro hr'
      obtain ⟨id, r, hr, rfl, rfl⟩ := h.exists_get? hr'
      exact List.mem_map.mpr ⟨(id, r), (mem_live_iff m id r).mpr hr, rfl⟩

theorem Renumbered.anonymousBefore (h : Renumbered ρ m m') {id : RoutineId} {r : Routine}
    (hr : m.get? id = some r) : m'.anonymousBefore (ρ id) = m.anonymousBefore id := by
  rw [anonymousBefore_eq, anonymousBefore_eq, h.live_eq, List.countP_map]
  apply List.countP_congr
  intro p hp
  have hlt := h.lt_iff ((mem_live_iff m p.1 p.2).mp hp) hr
  simp [hlt]

theorem Renumbered.globalName (h : Renumbered ρ m m') {id : RoutineId} {r : Routine}
    (hr : m.get? id = some r) : m'.globalName (ρ id) = m.globalName id := by
  unfold CodeModule.globalName
  rw [h.get? id r hr, hr, h.anonymousBefore hr]
  rfl

theorem Renumbered.instructionLine (h : Renumbered ρ m m') {code : Array Instruction}
    {arity position : Nat} {i : Instruction} (hfits : Fits m code arity position i.operation)
    (body : Body) (params : List String) :
    (body.renumber ρ).instructionLine m' params (i.renumber ρ) =
      body.instructionLine m params i := by
  have hoperation : (body.renumber ρ).operationText m' params (i.operation.renumber ρ) =
      body.operationText m params i.operation := by
    unfold Body.operationText
    cases hop : i.operation with
    | binary op lhs rhs =>
      dsimp only [Operation.renumber]
      rw [Body.operandText_renumber, Body.operandText_renumber]
    | ofTruth v =>
      dsimp only [Operation.renumber]
      rw [Body.typedText_renumber]
    | call callee args =>
      rw [hop] at hfits
      obtain ⟨target, htarget⟩ := hfits.get?_callee
      have htexts : (body.renumber ρ).typedText params = body.typedText params := by
        funext v
        exact body.typedText_renumber params v
      dsimp only [Operation.renumber]
      rw [h.globalName htarget, htexts]
  unfold Body.instructionLine
  rw [← hoperation]
  rfl

theorem Renumbered.routineLines (h : Renumbered ρ m m') (hm : m.Sound) {id : RoutineId}
    {r : Routine} (hr : m.get? id = some r) :
    m'.routineLines (ρ id) (r.renumber ρ) = m.routineLines id r := by
  unfold CodeModule.routineLines
  rw [h.globalName hr]
  cases hbody : r.body with
  | none => simp only [Routine.renumber, hbody, Option.map_none]
  | some body =>
    have hsound := hm.body_sound hr hbody
    have hlines : (body.renumber ρ).instructions.toList.map
          ((body.renumber ρ).instructionLine m' r.params) =
        body.instructions.toList.map (body.instructionLine m r.params) := by
      rw [Body.renumber, Array.toList_map, List.map_map]
      apply List.map_congr_left
      intro i hi
      obtain ⟨k, hk⟩ := List.mem_iff_getElem?.mp hi
      rw [Array.getElem?_toList] at hk
      exact h.instructionLine (hsound.fits k i hk) body r.params
    simp only [Routine.renumber, hbody, Option.map_some]
    rw [hlines, Body.returnLine_renumber]

/-- Modules with the same routines in the same order have the same text. -/
theorem Renumbered.text_eq (h : Renumbered ρ m m') (hm : m.Sound) : m'.text = m.text := by
  unfold CodeModule.text
  rw [h.name, h.live_eq, List.flatMap_map]
  have hlines : (m.live.flatMap fun p => "" :: m'.routineLines (ρ p.1) (p.2.renumber ρ)) =
      m.live.flatMap fun p => "" :: m.routineLines p.1 p.2 := by
    apply List.flatMap_congr
    intro p hp
    rw [h.routineLines hm ((mem_live_iff m p.1 p.2).mp hp)]
  rw [hlines]

end Text

/-! ## Sequences of constructs -/

/-- What constructs do to a module one after the other: the result of each, and the module behind
    them. -/
def lowerAll (m : CodeModule) :
    List Construct → List (Except LowerError (Option RoutineId)) × CodeModule
  | [] => ([], m)
  | c :: rest =>
    let (result, m) := lowerConstruct m c
    let (results, m) := lowerAll m rest
    (result :: results, m)

/-- The constructs that succeed when they are lowered one after the other. -/
def accepted (m : CodeModule) : List Construct → List Construct
  | [] => []
  | c :: rest =>
    match lowerConstruct m c with
    | (.ok _, m) => c :: accepted m rest
    | (.error _, m) => accepted m rest

theorem lowerConstruct_sound {m : CodeModule} (h : m.Sound) (c : Construct) :
    (lowerConstruct m c).2.Sound :=
  Request.perform_sound h (.construct c)

theorem lowerAll_preserves_sound {m : CodeModule} (h : m.Sound) (cs : List Construct) :
    (lowerAll m cs).2.Sound := by
  induction cs generalizing m with
  | nil => exact h
  | cons c rest ih => exact ih (lowerConstruct_sound h c)

/-- Without the constructs that fail, the others succeed, and lead to the same routines. -/
theorem lowerAll_accepted {ρ : RoutineId → RoutineId} {m m' : CodeModule}
    (h : Renumbered ρ m m') (hm : m.Sound) (cs : List Construct) :
    (∀ result ∈ (lowerAll m' (accepted m cs)).1, ∃ id?, result = .ok id?) ∧
      ∃ ρ', Renumbered ρ' (lowerAll m cs).2 (lowerAll m' (accepted m cs)).2 := by
  induction cs generalizing ρ m m' with
  | nil => exact ⟨by simp [accepted, lowerAll], ρ, h⟩
  | cons c rest ih =>
    have hsound := lowerConstruct_sound hm c
    rcases hc : lowerConstruct m c with ⟨result, m₁⟩
    rw [hc] at hsound
    have hbehind : (lowerAll m (c :: rest)).2 = (lowerAll m₁ rest).2 := by
      rw [lowerAll, hc]
    rw [hbehind]
    cases result with
    | ok id? =>
      obtain ⟨ρ₁, m₁', hc', h₁⟩ := h.lowerConstruct hm hc
      obtain ⟨hresults, hrest⟩ := ih h₁ hsound
      have haccepted : accepted m (c :: rest) = c :: accepted m₁ rest := by
        rw [accepted, hc]
      rw [haccepted, lowerAll, hc']
      refine ⟨?_, hrest⟩
      intro result hresult
      rcases List.mem_cons.mp hresult with rfl | hmem
      · exact ⟨_, rfl⟩
      · exact hresults result hmem
    | error e =>
      have hsame : SameRoutines m m₁ := @Request.perform_error _ _ (.construct c) _ hc
      have haccepted : accepted m (c :: rest) = accepted m₁ rest := by
        rw [accepted, hc]
      rw [haccepted]
      exact ih (h.of_sameRoutines hsame) hsound

/-- A construct that fails leaves the live routines as they are. And if only those constructs are
    lowered that succeed, then all of them succeed, with the same live routines in the same order up
    to their places, and with the same text. -/
theorem replay_accepted (name : String) (cs : List Construct) :
    let m := (lowerAll (.empty name) cs).2
    let replayed := lowerAll (.empty name) (accepted (.empty name) cs)
    (∀ c e m', lowerConstruct m c = (.error e, m') → m'.live = m.live) ∧
      (∀ result ∈ replayed.1, ∃ id?, result = .ok id?) ∧
      (∃ ρ : RoutineId → RoutineId,
        (∀ p ∈ m.live, ∀ q ∈ m.live, p.1.index < q.1.index → (ρ p.1).index < (ρ q.1).index) ∧
          replayed.2.live = m.live.map fun p => (ρ p.1, p.2.renumber ρ)) ∧
      replayed.2.text = m.text := by
  intro m replayed
  have hsound : m.Sound := lowerAll_preserves_sound (.empty name) cs
  obtain ⟨hresults, ρ, hρ⟩ := lowerAll_accepted (.empty name) (.empty name) cs
  refine ⟨?_, hresults, ⟨ρ, ?_, hρ.live_eq⟩, hρ.text_eq hsound⟩
  · intro c e m' hc
    have hsame : SameRoutines m m' := @Request.perform_error _ _ (.construct c) _ hc
    exact live_congr hsame.get?
  · intro p hp q hq
    rw [mem_live_iff] at hp hq
    exact hρ.mono p.1 q.1 p.2 q.2 hp hq

end Formulary

import Formulary.Proofs.FreshNames
import Formulary.Proofs.Replay

/-!
# What a module keeps

A construct adds a routine behind all others, gives a body to a routine that has none, or changes
no routine. So what has been found in a module is found there later, and it is referred to by the
same text: the number of a nameless routine counts those before it, and none is ever added or taken
away before it.

* `Grows`: routines stay, and new ones stand behind them.
* `lowerConstruct_grows`: every construct makes a module grow.
* `Grows.find?`: what is found by name is found later.
* `Grows.globalName`, `Grows.routineText?`: routines are written as they were.
* `CodeModule.WellNamed`, `CodeModule.globalName_injective`: no two routines are referred to by the
  same text.
* `CodeModule.exists_entry`: the text of a routine stands in the text of the module.
-/

namespace Formulary

open CodeModule

/-! ## Growth -/

/-- Every routine of the first module stays, and the routines that the second one has besides stand
    behind all of them. -/
structure Grows (m m' : CodeModule) : Prop where
  name : m'.name = m.name
  evolves : Evolves m m'
  behind : ∀ id r', m'.get? id = some r' →
    (∃ r, m.get? id = some r) ∨ ∀ old r, m.get? old = some r → old.index < id.index

theorem Evolves.trans {m₁ m₂ m₃ : CodeModule} (h : Evolves m₁ m₂) (h' : Evolves m₂ m₃) :
    Evolves m₁ m₃ := by
  intro id r hr
  obtain ⟨r', hr', hname, harity, hsame⟩ := h id r hr
  obtain ⟨r'', hr'', hname', harity', hsame'⟩ := h' id r' hr'
  refine ⟨r'', hr'', hname'.trans hname, harity'.trans harity, ?_⟩
  intro hbody
  obtain rfl := hsame hbody
  exact hsame' hbody

namespace Grows

variable {m m₁ m₂ m' declared : CodeModule} {p : Prototype} {id : RoutineId} {r : Routine}

theorem of_sameRoutines (h : SameRoutines m m') : Grows m m' := by
  refine ⟨h.name, h.evolves, ?_⟩
  intro id r' hr'
  rw [h.get?] at hr'
  exact .inl ⟨r', hr'⟩

theorem refl (m : CodeModule) : Grows m m := .of_sameRoutines (.refl m)

theorem trans (h : Grows m m₁) (h' : Grows m₁ m₂) : Grows m m₂ := by
  refine ⟨h'.name.trans h.name, h.evolves.trans h'.evolves, ?_⟩
  intro id r'' hr''
  rcases h'.behind id r'' hr'' with ⟨r', hr'⟩ | hbehind
  · exact h.behind id r' hr'
  · right
    intro old r hr
    obtain ⟨r', hr', -⟩ := h.evolves old r hr
    exact hbehind old r' hr'

/-- A routine that is prepared for a body was there before, or is the last one. -/
theorem of_prepared (h : Prepared m p id declared) : Grows m declared := by
  refine ⟨?_, h.evolves, ?_⟩
  · cases h <;> rfl
  · intro other r hr
    cases h with
    | declared => exact .inl ⟨r, hr⟩
    | fresh hfind =>
      rcases get?_of_declare hr with ⟨rfl, -⟩ | hold
      · exact .inr fun old r hr => index_lt_of_get? hr
      · exact .inl ⟨r, hold⟩

/-- A body is given to a routine that is there. -/
theorem of_define (h : Prepared m p id declared) {finished : Finished}
    (hlen : finished.params.length = p.params.length) :
    Grows declared (declared.define id finished).2 := by
  obtain ⟨r, hget, -⟩ := h.get?
  refine ⟨name_define _ _ _, h.evolves_define hlen, ?_⟩
  intro other q hq
  obtain ⟨q', hq', -⟩ := get?_of_define hget hq
  exact .inl ⟨q', hq'⟩

end Grows

theorem lowerPrototype_grows (m : CodeModule) (p : Prototype) : Grows m (lowerPrototype m p).2 := by
  rcases lowerPrototype_cases m p with ⟨hfind, hnew⟩ | ⟨id, -, -, hsame⟩ | ⟨e, hrefused, -⟩
  · rw [hnew]
    exact .of_prepared (.fresh hfind)
  · rw [hsame]
    exact .refl m
  · rw [hrefused]
    exact .refl m

theorem lowerFormula_grows (m : CodeModule) (f : Formula) : Grows m (lowerFormula m f).2 := by
  rcases lowerFormula_cases m f with ⟨id, declared, ret, b, hp, hexpr, hok⟩ |
    ⟨e, m', herror, -, hsame⟩
  · rw [hok]
    exact (Grows.of_prepared hp).trans (.of_define hp (sound_of_lowerExpr hexpr).1)
  · rw [herror]
    exact .of_sameRoutines hsame

/-- Every construct makes a module grow, whether it succeeds or not. -/
theorem lowerConstruct_grows (m : CodeModule) (c : Construct) : Grows m (lowerConstruct m c).2 := by
  cases c with
  | definition f => exact lowerFormula_grows m f
  | expression f => exact lowerFormula_grows m f
  | declaration p => exact lowerPrototype_grows m p
  | separator => exact .refl m
  | endOfInput => exact .refl m

/-! ## Found by name -/

theorem CodeModule.Sound.find?_eq {m : CodeModule} (h : m.Sound) {id : RoutineId} {r : Routine}
    (hr : m.get? id = some r) (hne : r.name ≠ "") : m.find? r.name = some id := by
  refine find?_eq_some_iff.mpr ⟨hne, ⟨r, hr, rfl⟩, ?_⟩
  intro earlier q hlt hq hname
  obtain rfl := h.unique earlier id q r hq hr hname (hname ▸ hne)
  omega

theorem Grows.find? {m m' : CodeModule} (h : Grows m m') (hm' : m'.Sound) {name : String}
    {id : RoutineId} (hfind : m.find? name = some id) : m'.find? name = some id := by
  obtain ⟨hne, ⟨r, hr, rfl⟩, -⟩ := find?_eq_some_iff.mp hfind
  obtain ⟨r', hr', hname, -⟩ := h.evolves id r hr
  rw [← hname] at hne ⊢
  exact hm'.find?_eq hr' hne

/-! ## Numbers of nameless routines -/

/-- The places of the nameless routines before a place. -/
def CodeModule.namelessBefore (m : CodeModule) (id : RoutineId) : List RoutineId :=
  (m.live.filter fun p => decide (p.1.index < id.index) && p.2.isAnonymous).map (·.1)

namespace CodeModule

variable {m : CodeModule}

theorem length_namelessBefore (m : CodeModule) (id : RoutineId) :
    (m.namelessBefore id).length = m.anonymousBefore id := by
  rw [namelessBefore, List.length_map, anonymousBefore_eq, List.countP_eq_length_filter]

theorem namelessBefore_pairwise (m : CodeModule) (id : RoutineId) :
    (m.namelessBefore id).Pairwise (·.index < ·.index) := by
  rw [namelessBefore, List.pairwise_map]
  exact m.live_pairwise.filter _

theorem mem_namelessBefore_iff {id other : RoutineId} :
    other ∈ m.namelessBefore id ↔
      other.index < id.index ∧ ∃ r, m.get? other = some r ∧ r.isAnonymous = true := by
  unfold namelessBefore
  simp only [List.mem_map, List.mem_filter, Bool.and_eq_true, decide_eq_true_eq]
  constructor
  · rintro ⟨⟨id', r⟩, ⟨hmem, hlt, hanon⟩, rfl⟩
    exact ⟨hlt, r, (mem_live_iff m id' r).mp hmem, hanon⟩
  · rintro ⟨hlt, r, hr, hanon⟩
    exact ⟨(other, r), ⟨(mem_live_iff m other r).mpr hr, hlt, hanon⟩, rfl⟩

/-- A nameless routine has a smaller number than those behind it. -/
theorem anonymousBefore_lt {id id' : RoutineId} {r : Routine} (hr : m.get? id = some r)
    (hanon : r.isAnonymous = true) (hlt : id.index < id'.index) :
    m.anonymousBefore id < m.anonymousBefore id' := by
  have hsub : id :: m.namelessBefore id ⊆ m.namelessBefore id' := by
    intro other hmem
    rw [mem_namelessBefore_iff]
    rcases List.mem_cons.mp hmem with rfl | hmem
    · exact ⟨hlt, r, hr, hanon⟩
    · obtain ⟨hother, hrest⟩ := mem_namelessBefore_iff.mp hmem
      exact ⟨by omega, hrest⟩
  have hnodup : (id :: m.namelessBefore id).Nodup := by
    rw [List.nodup_cons]
    refine ⟨?_, (m.namelessBefore_pairwise id).imp fun hlt heq => ?_⟩
    · intro hmem
      have := (mem_namelessBefore_iff.mp hmem).1
      omega
    · rw [heq] at hlt
      omega
  have hle := (List.Nodup.subperm hnodup hsub).length_le
  rw [List.length_cons, length_namelessBefore, length_namelessBefore] at hle
  omega

end CodeModule

section Stability

variable {m m' : CodeModule} {id : RoutineId} {r : Routine}

/-- The same nameless routines stand before a routine that was there. -/
theorem Grows.anonymousBefore (h : Grows m m') (hr : m.get? id = some r) :
    m'.anonymousBefore id = m.anonymousBefore id := by
  have hplaces : m'.namelessBefore id = m.namelessBefore id := by
    refine List.Pairwise.eq_of_mem_iff (m'.namelessBefore_pairwise id)
      (m.namelessBefore_pairwise id) ?_
    intro other
    rw [mem_namelessBefore_iff, mem_namelessBefore_iff]
    refine and_congr_right fun hlt => ?_
    constructor
    · rintro ⟨q', hq', hanon⟩
      rcases h.behind other q' hq' with ⟨q, hq⟩ | hbehind
      · obtain ⟨q'', hq'', hname, -⟩ := h.evolves other q hq
        obtain rfl := Option.some.inj (hq'.symm.trans hq'')
        exact ⟨q, hq, by rw [Routine.isAnonymous, ← hname]; exact hanon⟩
      · have := hbehind id r hr
        omega
    · rintro ⟨q, hq, hanon⟩
      obtain ⟨q', hq', hname, -⟩ := h.evolves other q hq
      exact ⟨q', hq', by rw [Routine.isAnonymous, hname]; exact hanon⟩
  rw [← length_namelessBefore, hplaces, length_namelessBefore]

theorem CodeModule.globalName_of_get? (hr : m.get? id = some r) :
    m.globalName id = "@" ++ if r.isAnonymous then toString (m.anonymousBefore id) else r.name := by
  unfold globalName
  rw [hr]

theorem Grows.globalName (h : Grows m m') (hr : m.get? id = some r) :
    m'.globalName id = m.globalName id := by
  obtain ⟨r', hr', hname, -⟩ := h.evolves id r hr
  have hanon : r'.isAnonymous = r.isAnonymous := by
    rw [Routine.isAnonymous, hname, Routine.isAnonymous]
  rw [globalName_of_get? hr, globalName_of_get? hr', h.anonymousBefore hr, hanon, hname]

/-- The line of an instruction depends on the module only by the name of the called routine. -/
theorem Body.instructionLine_congr (body : Body) (params : List String) {i : Instruction}
    (h : ∀ callee args, i.operation = .call callee args →
      m'.globalName callee = m.globalName callee) :
    body.instructionLine m' params i = body.instructionLine m params i := by
  unfold Body.instructionLine Body.operationText
  cases hop : i.operation with
  | binary op lhs rhs => rfl
  | ofTruth v => rfl
  | call callee args =>
    dsimp only
    rw [h callee args hop]

/-- A routine with a body has the same lines as before. -/
theorem Grows.routineLines (h : Grows m m') (hm : m.Sound) (hr : m.get? id = some r)
    (hbody : r.body ≠ none) : m'.routineLines id r = m.routineLines id r := by
  obtain ⟨body, hsome⟩ := Option.ne_none_iff_exists'.mp hbody
  have hsound := hm.body_sound hr hsome
  have hlines : body.instructions.toList.map (body.instructionLine m' r.params) =
      body.instructions.toList.map (body.instructionLine m r.params) := by
    apply List.map_congr_left
    intro i hi
    obtain ⟨k, hk⟩ := List.mem_iff_getElem?.mp hi
    rw [Array.getElem?_toList] at hk
    apply Body.instructionLine_congr
    intro callee args hop
    have hfits := hsound.fits k i hk
    rw [hop] at hfits
    obtain ⟨target, htarget⟩ := hfits.get?_callee
    exact h.globalName htarget
  unfold CodeModule.routineLines
  simp only [hsome, h.globalName hr, hlines]

theorem Grows.routineText? (h : Grows m m') (hm : m.Sound) (hr : m.get? id = some r)
    (hbody : r.body ≠ none) : m'.routineText? id = m.routineText? id := by
  obtain ⟨r', hr', -, -, hsame⟩ := h.evolves id r hr
  obtain rfl := hsame hbody
  unfold CodeModule.routineText?
  rw [hr, hr', Option.map_some, Option.map_some, h.routineLines hm hr hbody]

end Stability

/-! ## Routines are told apart by what they are referred to -/

/-- Routines have words for names, or no name. -/
def CodeModule.WellNamed (m : CodeModule) : Prop :=
  ∀ id r, m.get? id = some r → r.name = "" ∨ isWord r.name.toList = true

theorem not_isWord_toString (n : Nat) : isWord (toString n).toList = false := by
  cases hdigits : (toString n).toList with
  | nil => rfl
  | cons d digits =>
    have hdigit : d.isDigit = true := isDigit_of_mem_toString (hdigits ▸ List.mem_cons_self)
    have halpha := not_isAlpha_of_isNumeric (x := d) (by simp [isNumeric, hdigit])
    rw [isWord, halpha, Bool.false_and]

namespace CodeModule

variable {m : CodeModule} {id id' : RoutineId} {r r' : Routine}

/-- A name is not taken for a number. -/
theorem WellNamed.name_ne_toString (h : m.WellNamed) (hr : m.get? id = some r)
    (hnamed : r.isAnonymous = false) (n : Nat) : r.name ≠ toString n := by
  intro heq
  rcases h id r hr with hempty | hword
  · simp [Routine.isAnonymous, hempty] at hnamed
  · rw [heq, not_isWord_toString] at hword
    simp at hword

/-- No two routines are referred to by the same text. -/
theorem globalName_injective (hm : m.Sound) (hnamed : m.WellNamed) (hr : m.get? id = some r)
    (hr' : m.get? id' = some r') (heq : m.globalName id = m.globalName id') : id = id' := by
  rw [globalName_of_get? hr, globalName_of_get? hr', String.append_right_inj] at heq
  cases hanon : r.isAnonymous <;> cases hanon' : r'.isAnonymous <;>
    simp only [hanon, hanon', Bool.false_eq_true, ↓reduceIte] at heq
  · refine hm.unique id id' r r' hr hr' heq ?_
    simpa [Routine.isAnonymous] using hanon
  · exact absurd heq (hnamed.name_ne_toString hr hanon _)
  · exact absurd heq.symm (hnamed.name_ne_toString hr' hanon' _)
  · -- two nameless routines: the one in front has the smaller number
    have hnumber := toString_injective heq
    obtain ⟨i⟩ := id
    obtain ⟨j⟩ := id'
    rcases Nat.lt_trichotomy i j with hlt | rfl | hlt
    · have := @anonymousBefore_lt m ⟨i⟩ ⟨j⟩ r hr hanon hlt
      omega
    · rfl
    · have := @anonymousBefore_lt m ⟨j⟩ ⟨i⟩ r' hr' hanon' hlt
      omega

/-- The texts by which the live routines are referred to are all different. -/
theorem globalNames_nodup (hm : m.Sound) (hnamed : m.WellNamed) :
    (m.live.map fun p => m.globalName p.1).Nodup := by
  rw [List.nodup_iff_pairwise_ne, List.pairwise_map]
  apply m.live_pairwise.imp_of_mem
  intro p q hp hq hlt heq
  rw [mem_live_iff] at hp hq
  have hsame := globalName_injective hm hnamed hp hq heq
  rw [hsame] at hlt
  omega

/-! ## The text of a module -/

theorem unlines_append (lines lines' : List String) :
    unlines (lines ++ lines') = unlines lines ++ unlines lines' := by
  rw [unlines, unlines, unlines, List.map_append, String.join_append]

/-- The two lines before the routines of a module. -/
def header (m : CodeModule) : String :=
  unlines ["; ModuleID = '" ++ m.name ++ "'", "source_filename = \"" ++ m.name ++ "\""]

/-- The texts of routines of a module, each behind an empty line. -/
def entries (m : CodeModule) (routines : List (RoutineId × Routine)) : String :=
  String.join (routines.map fun p => "\n" ++ unlines (m.routineLines p.1 p.2))

theorem entries_append (m : CodeModule) (routines routines' : List (RoutineId × Routine)) :
    m.entries (routines ++ routines') = m.entries routines ++ m.entries routines' := by
  rw [entries, entries, entries, List.map_append, String.join_append]

theorem entries_cons (m : CodeModule) (p : RoutineId × Routine)
    (routines : List (RoutineId × Routine)) :
    m.entries (p :: routines) =
      "\n" ++ unlines (m.routineLines p.1 p.2) ++ m.entries routines := by
  rw [entries, entries, List.map_cons, String.join_cons]

theorem text_eq_unlines (m : CodeModule) :
    m.text = m.header ++ unlines (m.live.flatMap fun p => "" :: m.routineLines p.1 p.2) := by
  unfold text header
  rw [← unlines_append]
  rfl

theorem unlines_eq_entries (m : CodeModule) (routines : List (RoutineId × Routine)) :
    unlines (routines.flatMap fun p => "" :: m.routineLines p.1 p.2) = m.entries routines := by
  induction routines with
  | nil => rfl
  | cons p routines ih =>
    rw [List.flatMap_cons, unlines_append, ih, entries_cons]
    simp [unlines]

/-- The text of a routine stands in the text of the module, between those of the routines before it
    and those of the routines behind it. -/
theorem exists_entry (hr : m.get? id = some r) :
    ∃ before behind text, m.live = before ++ (id, r) :: behind ∧ m.routineText? id = some text ∧
      m.text = m.header ++ m.entries before ++ "\n" ++ text ++ m.entries behind := by
  obtain ⟨before, behind, hlive⟩ := List.append_of_mem ((mem_live_iff m id r).mpr hr)
  refine ⟨before, behind, unlines (m.routineLines id r), hlive, ?_, ?_⟩
  · rw [routineText?, hr, Option.map_some]
  · rw [text_eq_unlines, unlines_eq_entries, hlive, entries_append, entries_cons]
    simp only [String.append_assoc]

end CodeModule

end Formulary

import Formulary.Code.Module
import Mathlib.Data.List.Sort

/-!
# The routines of a module

What is found by place decides everything else about a module: what is found by name, and the
list of routines that have not been erased. Each change of a module is described by what it does to
the routines found by place.

* `CodeModule.find?_eq_some_iff`, `CodeModule.find?_eq_none_iff`: what is found by name.
* `CodeModule.get?_define`, `CodeModule.get?_erase`: what is found after a change.
* `CodeModule.get?_of_declare`, `CodeModule.get?_of_define`: where what is found comes from.
* `CodeModule.eq_live`: the routines that are found by place, in order, are the live ones.
-/

namespace Formulary

namespace CodeModule

/-! ## Found by place -/

/-- The number of parameters of the routine at a place. -/
def arity? (m : CodeModule) (id : RoutineId) : Option Nat := (m.get? id).map (·.arity)

theorem index_lt_of_get? {m : CodeModule} {id : RoutineId} {r : Routine} (h : m.get? id = some r) :
    id.index < m.slots.size := by
  unfold get? at h
  by_contra hge
  rw [Array.getElem?_eq_none (by omega)] at h
  simp at h

theorem get?_size (m : CodeModule) : m.get? ⟨m.slots.size⟩ = none := by
  cases h : m.get? ⟨m.slots.size⟩ with
  | none => rfl
  | some r => exact absurd (index_lt_of_get? h) (Nat.lt_irrefl _)

/-- Putting a routine in the place of another changes what is found there only. -/
theorem get?_put_of_some {m : CodeModule} {id : RoutineId} {r : Routine} (h : m.get? id = some r)
    (new : Option Routine) (other : RoutineId) :
    (m.put id new).get? other = if other = id then new else m.get? other := by
  have hlt := index_lt_of_get? h
  rw [get?_put]
  simp [hlt]

/-- A definition changes one routine that exists, and keeps its name. -/
theorem get?_define {m : CodeModule} {id : RoutineId} {r : Routine} (h : m.get? id = some r)
    (finished : Finished) (other : RoutineId) :
    (m.define id finished).2.get? other =
      if other = id then some ⟨r.name, finished.params, some finished.body⟩ else m.get? other := by
  unfold define
  simp only [h]
  exact get?_put_of_some h _ other

/-- Taking the body away changes one routine that exists, and keeps its name. -/
theorem get?_clearBody {m : CodeModule} {id : RoutineId} {r : Routine} (h : m.get? id = some r)
    (params : List String) (other : RoutineId) :
    (m.clearBody id params).get? other =
      if other = id then some ⟨r.name, params, none⟩ else m.get? other := by
  unfold clearBody
  simp only [h]
  exact get?_put_of_some h _ other

/-- A definition adds no routine and changes no name. -/
theorem get?_of_define {m : CodeModule} {id other : RoutineId} {r q : Routine}
    {finished : Finished} (h : m.get? id = some r)
    (hq : (m.define id finished).2.get? other = some q) :
    ∃ q', m.get? other = some q' ∧ q'.name = q.name := by
  rw [get?_define h] at hq
  split_ifs at hq with hother
  · obtain rfl := Option.some.inj hq
    exact ⟨r, by rw [hother, h], rfl⟩
  · exact ⟨q, hq, rfl⟩

theorem get?_of_declare {m : CodeModule} {name : String} {params : List String} {id : RoutineId}
    {r : Routine} (hr : (m.declare name params).2.get? id = some r) :
    id = ⟨m.slots.size⟩ ∧ r = ⟨name, params, none⟩ ∨ m.get? id = some r := by
  rw [get?_declare] at hr
  split_ifs at hr with hid
  · exact .inl ⟨congrArg RoutineId.mk hid, (Option.some.inj hr).symm⟩
  · exact .inr hr

@[simp] theorem name_define (m : CodeModule) (id : RoutineId) (finished : Finished) :
    (m.define id finished).2.name = m.name := by
  unfold define
  split <;> rfl

@[simp] theorem name_clearBody (m : CodeModule) (id : RoutineId) (params : List String) :
    (m.clearBody id params).name = m.name := by
  unfold clearBody
  split <;> rfl

theorem get?_erase (m : CodeModule) (id other : RoutineId) :
    (m.erase id).2.get? other = if other = id then none else m.get? other := by
  show (m.put id none).get? other = _
  rw [get?_put]
  by_cases hid : other = id
  · subst hid
    by_cases hlt : other.index < m.slots.size
    · simp [hlt]
    · simp only [hlt, and_false, ↓reduceIte]
      cases h : m.get? other with
      | none => rfl
      | some r => exact absurd (index_lt_of_get? h) hlt
  · simp [hid]

/-! ## Found by name -/

/-- A routine is found by a name that is not empty, and it is the first of that name. -/
theorem find?_eq_some_iff {m : CodeModule} {name : String} {id : RoutineId} :
    m.find? name = some id ↔ name ≠ "" ∧ (∃ r, m.get? id = some r ∧ r.name = name) ∧
      ∀ earlier r, earlier.index < id.index → m.get? earlier = some r → r.name ≠ name := by
  obtain ⟨i⟩ := id
  unfold find? get?
  by_cases hname : name = ""
  · simp [hname]
  · have hempty : name.isEmpty = false := by simpa using hname
    simp only [hempty, Bool.false_eq_true, ↓reduceIte, Option.map_eq_some_iff,
      RoutineId.mk.injEq, exists_eq_right, Array.findIdx?_eq_some_iff_getElem, ne_eq, hname,
      not_false_eq_true, true_and, Option.join_eq_some_iff]
    constructor
    · rintro ⟨hi, hfound, hbefore⟩
      obtain ⟨r, hr, hrname⟩ := (Option.any_eq_true _ _).mp hfound
      refine ⟨⟨r, by rw [Array.getElem?_eq_getElem hi, hr], by simpa using hrname⟩, ?_⟩
      rintro ⟨j⟩ r' hj hr' hname'
      obtain ⟨hlt, hslot⟩ := Array.getElem?_eq_some_iff.mp hr'
      exact hbefore j hj (by simp [hslot, hname'])
    · rintro ⟨⟨r, hr, hrname⟩, hbefore⟩
      obtain ⟨hi, hslot⟩ := Array.getElem?_eq_some_iff.mp hr
      refine ⟨hi, by simp [hslot, hrname], ?_⟩
      intro j hj hfound
      obtain ⟨r', hr', hname'⟩ := (Option.any_eq_true _ _).mp hfound
      have hslot' : m.slots[j]? = some (some r') := by
        rw [Array.getElem?_eq_getElem (by omega), hr']
      exact hbefore ⟨j⟩ r' hj hslot' (by simpa using hname')

/-- Nothing is found by the empty name and by names that no routine has. -/
theorem find?_eq_none_iff {m : CodeModule} {name : String} :
    m.find? name = none ↔ name = "" ∨ ∀ id r, m.get? id = some r → r.name ≠ name := by
  unfold find? get?
  by_cases hname : name = ""
  · simp [hname]
  · have hempty : name.isEmpty = false := by simpa using hname
    simp only [hempty, Bool.false_eq_true, ↓reduceIte, Option.map_eq_none_iff,
      Array.findIdx?_eq_none_iff, hname, false_or, Option.join_eq_some_iff]
    constructor
    · rintro hall ⟨i⟩ r hr hrname
      obtain ⟨hi, hslot⟩ := Array.getElem?_eq_some_iff.mp hr
      have := hall _ (Array.getElem_mem hi)
      simp [hslot, hrname] at this
    · intro hall slot hslot
      obtain ⟨i, hi, rfl⟩ := Array.mem_iff_getElem.mp hslot
      cases hr : m.slots[i] with
      | none => rfl
      | some r =>
        have := hall ⟨i⟩ r (by rw [Array.getElem?_eq_getElem hi, hr])
        simpa using this

/-- A routine whose name is not found has no name. -/
theorem name_eq_empty_of_find? {m : CodeModule} {id : RoutineId} {r : Routine}
    (hr : m.get? id = some r) (hfind : m.find? r.name = none) : r.name = "" := by
  rcases find?_eq_none_iff.mp hfind with hempty | hall
  · exact hempty
  · exact absurd rfl (hall id r hr)

/-- What is found by name depends on the names at each place only. -/
theorem find?_congr {m m' : CodeModule}
    (h : ∀ id, (m.get? id).map (·.name) = (m'.get? id).map (·.name)) (name : String) :
    m.find? name = m'.find? name := by
  have hone : ∀ {a b : CodeModule}, (∀ id, (a.get? id).map (·.name) = (b.get? id).map (·.name)) →
      ∀ id r, a.get? id = some r → ∃ r', b.get? id = some r' ∧ r'.name = r.name := by
    intro a b hab id r hr
    have := hab id
    rw [hr] at this
    exact Option.map_eq_some_iff.mp this.symm
  ext id
  rw [find?_eq_some_iff, find?_eq_some_iff]
  constructor
  · rintro ⟨hne, ⟨r, hr, hname⟩, hfirst⟩
    obtain ⟨r', hr', hname'⟩ := hone h id r hr
    refine ⟨hne, ⟨r', hr', hname'.trans hname⟩, fun earlier q hlt hq hqname => ?_⟩
    obtain ⟨q', hq', hqname'⟩ := hone (fun id => (h id).symm) earlier q hq
    exact hfirst earlier q' hlt hq' (hqname'.trans hqname)
  · rintro ⟨hne, ⟨r, hr, hname⟩, hfirst⟩
    obtain ⟨r', hr', hname'⟩ := hone (fun id => (h id).symm) id r hr
    refine ⟨hne, ⟨r', hr', hname'.trans hname⟩, fun earlier q hlt hq hqname => ?_⟩
    obtain ⟨q', hq', hqname'⟩ := hone h earlier q hq
    exact hfirst earlier q' hlt hq' (hqname'.trans hqname)

theorem find?_define {m : CodeModule} {id : RoutineId} {r : Routine} (h : m.get? id = some r)
    (finished : Finished) (name : String) :
    (m.define id finished).2.find? name = m.find? name := by
  apply find?_congr
  intro other
  rw [get?_define h]
  split_ifs with hother
  · rw [hother, h]
    rfl
  · rfl

/-! ## The live routines -/

theorem live_pairwise (m : CodeModule) : m.live.Pairwise (·.1.index < ·.1.index) := by
  unfold live
  rw [List.pairwise_filterMap]
  have hidx : m.slots.toList.zipIdx.Pairwise (·.2 < ·.2) := by
    rw [← List.pairwise_map, List.zipIdx_map_snd]
    exact List.pairwise_lt_range'
  refine hidx.imp ?_
  rintro ⟨slot, i⟩ ⟨slot', j⟩ hij ⟨id, r⟩ hid ⟨id', r'⟩ hid'
  obtain ⟨q, -, hq⟩ := Option.map_eq_some_iff.mp hid
  obtain ⟨q', -, hq'⟩ := Option.map_eq_some_iff.mp hid'
  obtain ⟨rfl, -⟩ := Prod.mk.inj hq
  obtain ⟨rfl, -⟩ := Prod.mk.inj hq'
  exact hij

/-- A list of places in order with the routines found there, all of them, is the list of live
    routines. -/
theorem eq_live {m : CodeModule} {l : List (RoutineId × Routine)}
    (hsorted : l.Pairwise (·.1.index < ·.1.index))
    (hmem : ∀ id r, (id, r) ∈ l ↔ m.get? id = some r) : l = m.live := by
  refine List.Pairwise.eq_of_mem_iff hsorted m.live_pairwise ?_
  rintro ⟨id, r⟩
  rw [hmem, mem_live_iff]

theorem live_congr {m m' : CodeModule} (h : ∀ id, m.get? id = m'.get? id) : m.live = m'.live := by
  apply eq_live m.live_pairwise
  intro id r
  rw [mem_live_iff, h]

end CodeModule

end Formulary

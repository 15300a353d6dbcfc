import Formulary.Code.Builder

/-!
# Modules

A module holds routines in slots. A slot keeps its place when its routine is erased, so the place
of a routine never changes and is never given to another one.

* `CodeModule.get?`, `CodeModule.live`: the routines that have not been erased.
* `CodeModule.find?`: the routine with a name.
* `CodeModule.declare`, `CodeModule.define`, `CodeModule.clearBody`, `CodeModule.erase`: changes.
* `CodeModule.get?_put`, `CodeModule.get?_declare`: what is found after a change.
-/

namespace Formulary

/-- A named sequence of slots for routines (`Module`). -/
structure CodeModule where
  name : String
  slots : Array (Option Routine)
deriving DecidableEq

namespace CodeModule

/-- A module without slots (`new`). -/
def empty (name : String) : CodeModule := ⟨name, #[]⟩

/-- The routine at a place, unless it has been erased or never was (`function`). -/
def get? (m : CodeModule) (id : RoutineId) : Option Routine := m.slots[id.index]?.join

/-- The routines that have not been erased, in the order of their slots (`functions`). -/
def live (m : CodeModule) : List (RoutineId × Routine) :=
  m.slots.toList.zipIdx.filterMap fun (slot, i) => slot.map (⟨i⟩, ·)

/-- The place of the routine with a name (`get_function`). The empty name finds nothing. -/
def find? (m : CodeModule) (name : String) : Option RoutineId :=
  if name.isEmpty then none
  else (m.slots.findIdx? fun slot => slot.any (·.name = name)).map (⟨·⟩)

/-- Puts a routine into the slot of a place that has one. -/
def put (m : CodeModule) (id : RoutineId) (r : Option Routine) : CodeModule :=
  ⟨m.name, m.slots.setIfInBounds id.index r⟩

/-- Adds a routine without a body in a new slot (`declare_function`). -/
def declare (m : CodeModule) (name : String) (params : List String) : RoutineId × CodeModule :=
  (⟨m.slots.size⟩, ⟨m.name, m.slots.push (some ⟨name, params, none⟩)⟩)

/-- Gives a routine a body together with the parameter names it was built with (`define_function`).
    Also yields the parameter names that were replaced. -/
def define (m : CodeModule) (id : RoutineId) (finished : Finished) : List String × CodeModule :=
  match m.get? id with
  | some r => (r.params, m.put id (some ⟨r.name, finished.params, some finished.body⟩))
  | none => ([], m)

/-- Takes a routine's body away and gives its parameters new names (`clear_body`). -/
def clearBody (m : CodeModule) (id : RoutineId) (params : List String) : CodeModule :=
  match m.get? id with
  | some r => m.put id (some ⟨r.name, params, none⟩)
  | none => m

/-- Takes a routine out of its slot (`erase_function`). -/
def erase (m : CodeModule) (id : RoutineId) : Option Routine × CodeModule :=
  (m.get? id, m.put id none)

/-! ## What is found after a change -/

/-- Only the slot that is named changes, and only if there is one. -/
theorem get?_put (m : CodeModule) (id other : RoutineId) (r : Option Routine) :
    (m.put id r).get? other =
      if other = id ∧ id.index < m.slots.size then r else m.get? other := by
  obtain ⟨i⟩ := id
  obtain ⟨j⟩ := other
  unfold get? put
  simp only [Array.getElem?_setIfInBounds, RoutineId.mk.injEq]
  by_cases h : i = j
  · subst h
    by_cases hi : i < m.slots.size
    · simp [hi]
    · simp [hi]
  · simp [h, Ne.symm h]

/-- A declared routine stands in a new slot behind all others. -/
theorem get?_declare (m : CodeModule) (name : String) (params : List String) (id : RoutineId) :
    (m.declare name params).2.get? id =
      if id.index = m.slots.size then some ⟨name, params, none⟩ else m.get? id := by
  unfold get? declare
  simp only [Array.getElem?_push]
  split <;> rfl

/-- The live routines are those that are found. -/
theorem mem_live_iff (m : CodeModule) (id : RoutineId) (r : Routine) :
    (id, r) ∈ m.live ↔ m.get? id = some r := by
  obtain ⟨i⟩ := id
  unfold live get?
  simp only [List.mem_filterMap, Prod.exists, Option.map_eq_some_iff, Prod.mk.injEq,
    RoutineId.mk.injEq, List.mem_zipIdx_iff_getElem?, Array.getElem?_toList, Option.join_eq_some_iff]
  constructor
  · rintro ⟨slot, j, hslot, r', rfl, rfl, rfl⟩
    exact hslot
  · intro h
    exact ⟨some r, i, h, r, rfl, rfl, rfl⟩

/-- The same module, numbers compared as numbers. -/
def sameValue (m n : CodeModule) : Bool :=
  m.name = n.name && m.slots.isEqv n.slots fun
    | some r, some s => r.sameValue s
    | none, none => true
    | _, _ => false

end CodeModule

end Formulary

import Formulary.Proofs.Emission
import Formulary.Proofs.Scanning
import Mathlib.Data.List.Perm.Subperm

/-!
# Names within a routine do not clash

A name that is claimed is free: of more numbered candidates than there are names in use, one is
free. So all parameters and results of a routine have names of their own, and since numbers are put
behind words, all of these names are words.

* `Names.firstFree_notMem`: the search for a free number succeeds.
* `Names.claim_notMem`: a claimed name was not in use.
* `Builder.Named`: the names of parameters and results are words, and no two are equal.
* `Emits.named`: making code for an expression keeps the names apart.
-/

namespace Formulary

/-! ## Claiming names -/

theorem toString_injective {n n' : Nat} (h : toString n = toString n') : n = n' := by
  rw [Nat.toString_eq_repr, Nat.toString_eq_repr, ← String.toList_inj, Nat.toList_repr,
    Nat.toList_repr] at h
  have hvalue := congrArg (fun digits => Nat.ofDigitChars 10 digits 0) h
  simpa using hvalue

theorem isDigit_of_mem_toString {n : Nat} {x : Char} (h : x ∈ (toString n).toList) :
    x.isDigit = true := by
  rw [Nat.toString_eq_repr, Nat.toList_repr] at h
  exact Nat.isDigit_of_mem_toDigits (by decide) (by decide) h

theorem isWord_numbered {base : String} (h : isWord base.toList = true) (suffix : Nat) :
    isWord (Names.numbered base suffix).toList = true := by
  rw [Names.numbered, String.toList_append]
  cases hbase : base.toList with
  | nil => simp [hbase, isWord] at h
  | cons x rest =>
    rw [hbase, isWord, Bool.and_eq_true, List.all_eq_true] at h
    rw [List.cons_append, isWord, Bool.and_eq_true, List.all_append, Bool.and_eq_true,
      List.all_eq_true, List.all_eq_true]
    refine ⟨h.1, h.2, ?_⟩
    intro c hc
    simp [Char.isAlphanum, isDigit_of_mem_toString hc]

namespace Names

variable {used : Std.HashSet String} {names : Names} {base : String}

theorem numbered_injective {suffix suffix' : Nat}
    (h : numbered base suffix = numbered base suffix') : suffix = suffix' :=
  toString_injective ((String.append_right_inj base).mp h)

/-- The search finds a free number if there is one among the candidates. -/
theorem firstFree_notMem_of_exists {tries suffix : Nat}
    (h : ∃ k < tries, numbered base (suffix + k) ∉ used) :
    numbered base (firstFree used base tries suffix) ∉ used := by
  induction tries generalizing suffix with
  | zero =>
    obtain ⟨k, hk, -⟩ := h
    omega
  | succ tries ih =>
    rw [firstFree]
    split_ifs with hused
    · apply ih
      obtain ⟨k, hk, hfree⟩ := h
      cases k with
      | zero => exact absurd (Std.HashSet.mem_iff_contains.mpr hused) hfree
      | succ k =>
        refine ⟨k, by omega, ?_⟩
        rwa [Nat.add_assoc, Nat.add_comm 1 k]
    · rwa [Std.HashSet.mem_iff_contains]

/-- Of more candidates than there are names in use, one is free. -/
theorem exists_free (used : Std.HashSet String) (base : String) (suffix : Nat) :
    ∃ k < used.size + 1, numbered base (suffix + k) ∉ used := by
  by_contra hall
  push Not at hall
  have hsub : (List.range (used.size + 1)).map (fun k => numbered base (suffix + k)) ⊆
      used.toList := by
    intro name hname
    obtain ⟨k, hk, rfl⟩ := List.mem_map.mp hname
    exact Std.HashSet.mem_toList.mpr (hall k (List.mem_range.mp hk))
  have hnodup : ((List.range (used.size + 1)).map
      (fun k => numbered base (suffix + k))).Nodup := by
    refine List.Pairwise.map _ ?_ List.nodup_range
    intro k k' hne heq
    have := numbered_injective heq
    omega
  have hle := (hnodup.subperm hsub).length_le
  rw [List.length_map, List.length_range, Std.HashSet.length_toList] at hle
  omega

theorem firstFree_notMem (used : Std.HashSet String) (base : String) (suffix : Nat) :
    numbered base (firstFree used base (used.size + 1) suffix) ∉ used :=
  firstFree_notMem_of_exists (exists_free used base suffix)

/-- A claimed name was not in use. -/
theorem claim_notMem (names : Names) (base : String) : (names.claim base).1 ∉ names.used := by
  unfold claim
  split_ifs with hused
  · exact firstFree_notMem _ _ _
  · rwa [Std.HashSet.mem_iff_contains]

theorem mem_used_claim {name : String} :
    name ∈ (names.claim base).2.used ↔ name = (names.claim base).1 ∨ name ∈ names.used := by
  unfold claim
  split_ifs with hused
  · simp only [Std.HashSet.mem_insert, beq_iff_eq]
    rw [eq_comm]
  · simp only [Std.HashSet.mem_insert, beq_iff_eq]
    rw [eq_comm]

theorem isWord_claim (names : Names) (h : isWord base.toList = true) :
    isWord (names.claim base).1.toList = true := by
  unfold claim
  split_ifs with hused
  · exact isWord_numbered h _
  · exact h

/-- Names that are claimed together are words of their own that were not in use. -/
theorem claimAll_fresh {wanted : List String}
    (hwords : ∀ base ∈ wanted, isWord base.toList = true) :
    (names.claimAll wanted).1.Nodup ∧
      (∀ name ∈ (names.claimAll wanted).1, name ∉ names.used ∧
        name ∈ (names.claimAll wanted).2.used ∧ isWord name.toList = true) ∧
      ∀ name ∈ names.used, name ∈ (names.claimAll wanted).2.used := by
  induction wanted generalizing names with
  | nil => exact ⟨List.nodup_nil, by simp [claimAll], fun name h => h⟩
  | cons base rest ih =>
    obtain ⟨hnodup, hnames, hkeep⟩ := @ih (names.claim base).2 fun b hb =>
      hwords b (List.mem_cons_of_mem base hb)
    rw [claimAll]
    refine ⟨?_, ?_, ?_⟩
    · rw [List.nodup_cons]
      refine ⟨fun hmem => (hnames _ hmem).1 ?_, hnodup⟩
      exact mem_used_claim.mpr (.inl rfl)
    · intro name hname
      rcases List.mem_cons.mp hname with rfl | hmem
      · exact ⟨names.claim_notMem base, hkeep _ (mem_used_claim.mpr (.inl rfl)),
          names.isWord_claim (hwords base (by simp))⟩
      · obtain ⟨hfree, hused, hword⟩ := hnames name hmem
        exact ⟨fun h => hfree (mem_used_claim.mpr (.inr h)), hused, hword⟩
    · intro name hname
      exact hkeep name (mem_used_claim.mpr (.inr hname))

end Names

/-! ## The names of a routine -/

/-- The names of parameters and results. -/
def localNames (params : List String) (instructions : Array Instruction) : List String :=
  params ++ instructions.toList.map (·.name)

/-- The names of parameters and results are words, no two of them are equal, and all are in use. -/
structure Builder.Named (b : Builder) : Prop where
  nodup : (localNames b.params b.instructions).Nodup
  words : ∀ name ∈ localNames b.params b.instructions, isWord name.toList = true
  used : ∀ name ∈ localNames b.params b.instructions, name ∈ b.names.used

section Building

variable {b b' : Builder}

theorem Builder.named_start {params : List String} (h : ∀ p ∈ params, isWord p.toList = true) :
    (Builder.start params).Named := by
  obtain ⟨hnodup, hnames, -⟩ := @Names.claimAll_fresh .empty params h
  have hlocals : localNames (Builder.start params).params (Builder.start params).instructions =
      (Names.empty.claimAll params).1 := by
    simp [localNames, Builder.start]
  refine ⟨hlocals ▸ hnodup, ?_, ?_⟩
  · rw [hlocals]
    exact fun name hname => (hnames name hname).2.2
  · rw [hlocals]
    exact fun name hname => (hnames name hname).2.1

theorem Builder.Named.push (h : b.Named) {name : String} (hname : isWord name.toList = true)
    (operation : Operation) : (b.push name operation).2.Named := by
  have hlocals :
      localNames (b.push name operation).2.params (b.push name operation).2.instructions =
        localNames b.params b.instructions ++ [(b.names.claim name).1] := by
    simp [localNames, Builder.push]
  have hfree : (b.names.claim name).1 ∉ localNames b.params b.instructions := fun hmem =>
    b.names.claim_notMem name (h.used _ hmem)
  refine ⟨?_, ?_, ?_⟩
  · rw [hlocals, List.nodup_append]
    refine ⟨h.nodup, by simp, ?_⟩
    rintro other hother new hnew rfl
    exact hfree (List.mem_singleton.mp hnew ▸ hother)
  · rw [hlocals]
    intro other hother
    rcases List.mem_append.mp hother with hold | hnew
    · exact h.words other hold
    · rw [List.mem_singleton.mp hnew]
      exact b.names.isWord_claim hname
  · rw [hlocals]
    intro other hother
    apply Names.mem_used_claim.mpr
    rcases List.mem_append.mp hother with hold | hnew
    · exact .inr (h.used other hold)
    · exact .inl (List.mem_singleton.mp hnew)

theorem Builder.Named.binary (h : b.Named) (op : BinaryOp) (l r : Value) {name : String}
    (hname : isWord name.toList = true) : (b.binary op l r name).2.Named := by
  rcases b.binary_cases op l r name with ⟨x, y, -, -, hfold⟩ | hpush
  · rw [hfold]
    exact h
  · rw [hpush]
    exact h.push hname _

theorem Builder.Named.ofTruth (h : b.Named) (v : Value) {name : String}
    (hname : isWord name.toList = true) : (b.ofTruth v name).2.Named := by
  rcases b.ofTruth_cases v name with ⟨flag, -, hfold⟩ | hpush
  · rw [hfold]
    exact h
  · rw [hpush]
    exact h.push hname _

theorem Builder.Named.emitOperator (h : b.Named) {op : Char} {l r v : Value}
    (hop : emitOperator op l r b = .ok (v, b')) : b'.Named := by
  unfold Formulary.emitOperator at hop
  split at hop
  · obtain ⟨-, rfl⟩ := Prod.mk.inj (Except.ok.inj hop)
    exact h.binary _ _ _ (by decide)
  · obtain ⟨-, rfl⟩ := Prod.mk.inj (Except.ok.inj hop)
    exact h.binary _ _ _ (by decide)
  · obtain ⟨-, rfl⟩ := Prod.mk.inj (Except.ok.inj hop)
    exact h.binary _ _ _ (by decide)
  · obtain ⟨-, rfl⟩ := Prod.mk.inj (Except.ok.inj hop)
    exact (h.binary _ _ _ (by decide)).ofTruth _ (by decide)
  · simp at hop

mutual

/-- Making code for an expression keeps the names apart. -/
theorem Emits.named {s : Scope} {e : Expr} {v : Value} {b b' : Builder} :
    Emits s e b v b' → b.Named → b'.Named
  | .number x b => id
  | .var b hi => id
  | .binary hl hr hop => fun h => (hr.named (hl.named h)).emitOperator hop
  | .call htarget hargs => fun h => (hargs.named h).push (by decide) _

theorem EmitsAll.named {s : Scope} {es : List Expr} {values : List Value} {b b' : Builder} :
    EmitsAll s es b values b' → b.Named → b'.Named
  | .nil b => id
  | .cons he hrest => fun h => hrest.named (he.named h)

end

end Building

end Formulary

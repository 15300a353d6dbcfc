import Formulary.Proofs.FreshNames

/-!
# A name that clashes gets the least number that makes it free

A builder remembers for each wanted name from which number on to search. Names made of one wanted
name can be wanted themselves or be made of others, as `x11` of `x` and of `x1`, so that what is
remembered could be too low or too high. It can be too low only: all numbers below it are known to
be in use. So the search ends where one from the beginning would end.

* `GivenName`: the name that a wanted one gets behind earlier names.
* `Names.firstFree_eq`: where the search ends, whatever the number of rounds it is given.
* `Names.Tracks`: what is remembered of the names given so far is right.
* `Names.Tracks.claim`: one more name is given rightly, and what is remembered stays right.
* `Command`, `build`: any sequence of steps of a builder.
* `local_names_allotted`: all names of a body, one by one.
-/

namespace Formulary

/-! ## Names in order -/

/-- `GivenName earlier base name`: behind the names `earlier`, the wanted name `base` becomes
    `name`, which is itself if that is free, and else has the least positive number behind it that
    makes it free. -/
inductive GivenName (earlier : List String) (base : String) : String → Prop
  | plain (hfree : base ∉ earlier) : GivenName earlier base base
  | numbered {n : Nat} (htaken : base ∈ earlier) (hpos : 1 ≤ n)
      (hfree : base ++ toString n ∉ earlier)
      (hleast : ∀ k, 1 ≤ k → k < n → base ++ toString k ∈ earlier) :
      GivenName earlier base (base ++ toString n)

/-- Each of the wanted names has become the name at its place, behind those at the places
    before. -/
structure Allotted (wanted names : List String) : Prop where
  length : names.length = wanted.length
  given : ∀ (k : Nat) (base name : String), wanted[k]? = some base → names[k]? = some name →
    GivenName (names.take k) base name

/-- One more name is wanted and given behind all others. -/
theorem Allotted.append {wanted names : List String} (h : Allotted wanted names)
    {base name : String} (hgiven : GivenName names base name) :
    Allotted (wanted ++ [base]) (names ++ [name]) := by
  have hlength := h.length
  refine ⟨by simp [hlength], ?_⟩
  intro k base' name' hbase hname
  by_cases hk : k < names.length
  · rw [List.getElem?_append_left (by omega)] at hbase hname
    rw [List.take_append_of_le_length (by omega)]
    exact h.given k base' name' hbase hname
  · rw [List.getElem?_append_right (by omega)] at hbase hname
    obtain ⟨hzero, rfl⟩ : k - names.length = 0 ∧ name = name' := by
      simpa [List.getElem?_singleton] using hname
    obtain rfl : k = names.length := by omega
    rw [← hlength, Nat.sub_self] at hbase
    obtain rfl := Option.some.inj hbase
    rwa [List.take_left]

/-! ## Searching for a number -/

namespace Names

variable {used : Std.HashSet String} {names : Names} {base : String}

/-- The search ends at the first free number, whatever the number of rounds it is given, if only
    they suffice. -/
theorem firstFree_eq {start n : Nat} (hle : start ≤ n) (hfree : numbered base n ∉ used)
    (hleast : ∀ k, start ≤ k → k < n → numbered base k ∈ used) {tries : Nat}
    (htries : n < start + tries) : firstFree used base tries start = n := by
  induction tries generalizing start with
  | zero => omega
  | succ tries ih =>
    rw [firstFree]
    split_ifs with hused
    · have hne : start ≠ n := by
        rintro rfl
        exact hfree (Std.HashSet.mem_iff_contains.mpr hused)
      exact ih (by omega) (fun k hk hlt => hleast k (by omega) hlt) (by omega)
    · by_contra hne
      exact hused (Std.HashSet.mem_iff_contains.mp (hleast start (Nat.le_refl _) (by omega)))

theorem mem_of_lt_firstFree {tries start k : Nat} (hk : start ≤ k)
    (hlt : k < firstFree used base tries start) : numbered base k ∈ used := by
  induction tries generalizing start with
  | zero =>
    rw [firstFree] at hlt
    omega
  | succ tries ih =>
    rw [firstFree] at hlt
    split_ifs at hlt with hused
    · rcases Nat.eq_or_lt_of_le hk with rfl | hk
      · exact Std.HashSet.mem_iff_contains.mpr hused
      · exact ih (by omega) hlt
    · omega

theorem le_firstFree (used : Std.HashSet String) (base : String) (tries start : Nat) :
    start ≤ firstFree used base tries start := by
  induction tries generalizing start with
  | zero => exact Nat.le_refl _
  | succ tries ih =>
    rw [firstFree]
    split_ifs with hused
    · have := ih (start + 1)
      omega
    · exact Nat.le_refl _

/-- From which number on to search for a wanted name. -/
def suffixFrom (names : Names) (base : String) : Nat := names.nextSuffix.getD base 1

/-- What is remembered is right for the names given so far: they are those in use, no two are
    equal, and all numbers below the one from which to search are in use. -/
structure Tracks (names : Names) (given : List String) : Prop where
  used : ∀ name, name ∈ names.used ↔ name ∈ given
  nodup : given.Nodup
  pos : ∀ base, 1 ≤ names.suffixFrom base
  below : ∀ base k, 1 ≤ k → k < names.suffixFrom base → numbered base k ∈ names.used

theorem Tracks.empty : Names.empty.Tracks [] := by
  have hfrom : ∀ base, Names.empty.suffixFrom base = 1 := fun base => by
    simp [suffixFrom, Names.empty]
  refine ⟨by simp [Names.empty], List.nodup_nil, fun base => Nat.le_of_eq (hfrom base).symm, ?_⟩
  intro base k hk hlt
  rw [hfrom] at hlt
  omega

section Tracks

variable {given : List String}

/-- Searching from what is remembered ends at the least number that makes the name free, where
    searching from one ends too. -/
theorem Tracks.search (h : names.Tracks given) (base : String) :
    ∃ n, 1 ≤ n ∧ numbered base n ∉ names.used ∧
      (∀ k, 1 ≤ k → k < n → numbered base k ∈ names.used) ∧
      firstFree names.used base (names.used.size + 1) (names.suffixFrom base) = n ∧
      ∀ tries, n ≤ tries → firstFree names.used base tries (names.suffixFrom base) = n ∧
        firstFree names.used base tries 1 = n := by
  have hpos := h.pos base
  have hfree := firstFree_notMem names.used base (names.suffixFrom base)
  have hle := le_firstFree names.used base (names.used.size + 1) (names.suffixFrom base)
  have habove := fun k => @mem_of_lt_firstFree names.used base (names.used.size + 1)
    (names.suffixFrom base) k
  generalize hn : firstFree names.used base (names.used.size + 1) (names.suffixFrom base) = n
    at hfree hle habove
  have hleast : ∀ k, 1 ≤ k → k < n → numbered base k ∈ names.used := by
    intro k hk hlt
    by_cases hbelow : k < names.suffixFrom base
    · exact h.below base k hk hbelow
    · exact habove k (by omega) hlt
  refine ⟨n, by omega, hfree, hleast, rfl, ?_⟩
  intro tries htries
  exact ⟨firstFree_eq hle hfree habove (by omega), firstFree_eq (by omega) hfree hleast (by omega)⟩

/-- A free name is added, and for one wanted name the number from which to search is raised by what
    is in use. -/
theorem Tracks.insert (h : names.Tracks given) {name : String} (hfree : name ∉ names.used)
    {after : Names} (hused : after.used = names.used.insert name)
    (hpos : ∀ base, 1 ≤ after.suffixFrom base)
    (hbelow : ∀ base k, names.suffixFrom base ≤ k → k < after.suffixFrom base →
      numbered base k ∈ after.used) : after.Tracks (given ++ [name]) := by
  have hmem : ∀ other, other ∈ after.used ↔ name = other ∨ other ∈ names.used := by
    intro other
    rw [hused, Std.HashSet.mem_insert, beq_iff_eq]
  refine ⟨?_, ?_, hpos, ?_⟩
  · intro other
    rw [hmem, h.used, List.mem_append, List.mem_singleton, or_comm, eq_comm]
  · rw [List.nodup_append]
    refine ⟨h.nodup, by simp, ?_⟩
    rintro other hother new hnew rfl
    obtain rfl := List.mem_singleton.mp hnew
    exact hfree ((h.used _).mpr hother)
  · intro base k hk hlt
    by_cases hold : k < names.suffixFrom base
    · exact (hmem _).mpr (.inr (h.below base k hk hold))
    · exact hbelow base k (by omega) hlt

/-- A wanted name is given as it should be, and what is remembered stays right. -/
theorem Tracks.claim (h : names.Tracks given) (base : String) :
    GivenName given base (names.claim base).1 ∧
      (names.claim base).2.Tracks (given ++ [(names.claim base).1]) := by
  have hfree := names.claim_notMem base
  unfold Names.claim at hfree ⊢
  split_ifs at hfree ⊢ with hused
  · -- all numbers up to the one that is found are in use from now on
    obtain ⟨n, hn, -, hleast, hsearch, -⟩ := h.search base
    rw [show names.nextSuffix.getD base 1 = names.suffixFrom base from rfl, hsearch] at hfree ⊢
    refine ⟨.numbered ((h.used base).mp (Std.HashSet.mem_iff_contains.mpr hused)) hn
      (fun hmem => hfree ((h.used _).mpr hmem))
      (fun k hk hlt => (h.used _).mp (hleast k hk hlt)), ?_⟩
    have hfrom : ∀ other, (⟨names.used.insert (numbered base n),
        names.nextSuffix.insert base (n + 1)⟩ : Names).suffixFrom other =
          if base = other then n + 1 else names.suffixFrom other := by
      intro other
      simp [suffixFrom, Std.HashMap.getD_insert]
    refine h.insert hfree rfl ?_ ?_
    · intro other
      rw [hfrom]
      split_ifs
      · omega
      · exact h.pos other
    · intro other k hk hlt
      rw [hfrom] at hlt
      split_ifs at hlt with hother
      · subst hother
        rw [Std.HashSet.mem_insert, beq_iff_eq]
        have hpos := h.pos base
        rcases Nat.eq_or_lt_of_le (Nat.le_of_lt_succ hlt) with rfl | hlt
        · exact .inl rfl
        · exact .inr (hleast k (by omega) hlt)
      · omega
  · have hbase : base ∉ names.used := by rwa [Std.HashSet.mem_iff_contains]
    refine ⟨.plain fun hmem => hbase ((h.used base).mpr hmem), h.insert hbase rfl h.pos ?_⟩
    intro other k hk hlt
    exact absurd hlt (by simpa [suffixFrom] using hk)

/-- Names that are wanted one after the other are given as they should be. -/
theorem Tracks.claimAll {before : List String} (h : names.Tracks given)
    (hbefore : Allotted before given) (wanted : List String) :
    (names.claimAll wanted).2.Tracks (given ++ (names.claimAll wanted).1) ∧
      Allotted (before ++ wanted) (given ++ (names.claimAll wanted).1) := by
  induction wanted generalizing names given before with
  | nil => simpa [Names.claimAll] using And.intro h hbefore
  | cons base rest ih =>
    obtain ⟨hgiven, htracks⟩ := h.claim base
    have hrest := ih htracks (hbefore.append hgiven)
    rwa [← List.append_cons, ← List.append_cons] at hrest

end Tracks

end Names

/-! ## The names of a builder -/

/-- The parameters and results of the builder have been given names for the wanted ones in order,
    and what it remembers of them is right. -/
structure Builder.Allots (b : Builder) (wanted : List String) : Prop where
  tracks : b.names.Tracks (localNames b.params b.instructions)
  allotted : Allotted wanted (localNames b.params b.instructions)

theorem Builder.allots_start (params : List String) : (Builder.start params).Allots params := by
  obtain ⟨htracks, hallotted⟩ := Names.Tracks.empty.claimAll ⟨rfl, by simp⟩ params
  have hlocals : localNames (Builder.start params).params (Builder.start params).instructions =
      [] ++ (Names.empty.claimAll params).1 := by
    simp [localNames, Builder.start]
  exact ⟨hlocals ▸ htracks, hlocals ▸ hallotted⟩

theorem Builder.Allots.push {b : Builder} {wanted : List String} (h : b.Allots wanted)
    (name : String) (operation : Operation) :
    (b.push name operation).2.Allots (wanted ++ [name]) := by
  obtain ⟨hgiven, htracks⟩ := h.tracks.claim name
  have hlocals :
      localNames (b.push name operation).2.params (b.push name operation).2.instructions =
        localNames b.params b.instructions ++ [(b.names.claim name).1] := by
    simp [localNames, Builder.push]
  exact ⟨hlocals ▸ htracks, hlocals ▸ h.allotted.append hgiven⟩

/-- A step of a builder: an operation on any operands, and the name wanted for its result. -/
inductive Command
  | binary (op : BinaryOp) (lhs rhs : Value) (name : String)
  | ofTruth (value : Value) (name : String)
  | call (callee : RoutineId) (args : List Value) (name : String)

namespace Command

/-- What a step makes of a builder. -/
def perform (b : Builder) : Command → Builder
  | binary op lhs rhs name => (b.binary op lhs rhs name).2
  | ofTruth value name => (b.ofTruth value name).2
  | call callee args name => (b.call callee args name).2

/-- The name that a step asks for; none if the operation is computed at once. -/
def wanted? : Command → Option String
  | binary _ (.constant _) (.constant _) _ => none
  | binary _ _ _ name => some name
  | ofTruth (.truth _) _ => none
  | ofTruth _ name => some name
  | call _ _ name => some name

/-- A step asks for no name and changes nothing, or emits an instruction under the name it asks
    for. -/
theorem perform_cases (c : Command) (b : Builder) :
    c.wanted? = none ∧ c.perform b = b ∨
      ∃ name operation, c.wanted? = some name ∧ c.perform b = (b.push name operation).2 := by
  fun_cases wanted? c with
  | case1 op x y name => exact .inl ⟨rfl, rfl⟩
  | case2 op lhs rhs name hunknown =>
    refine .inr ⟨name, .binary op lhs rhs, rfl, ?_⟩
    rw [perform, Builder.binary.eq_2 _ _ _ _ _ hunknown]
  | case3 flag name => exact .inl ⟨rfl, rfl⟩
  | case4 value name hunknown =>
    refine .inr ⟨name, .ofTruth value, rfl, ?_⟩
    rw [perform, Builder.ofTruth.eq_2 _ _ _ hunknown]
  | case5 callee args name => exact .inr ⟨name, .call callee args, rfl, rfl⟩

end Command

/-- The builder for a routine with the given parameters behind steps in order. -/
def build (params : List String) (commands : List Command) : Builder :=
  commands.foldl Command.perform (.start params)

theorem Builder.Allots.foldl {b : Builder} {wanted : List String} (h : b.Allots wanted)
    (commands : List Command) :
    (commands.foldl Command.perform b).Allots (wanted ++ commands.filterMap Command.wanted?) := by
  induction commands generalizing b wanted with
  | nil => simpa using h
  | cons c commands ih =>
    rw [List.foldl_cons]
    rcases c.perform_cases b with ⟨hnone, hsame⟩ | ⟨name, operation, hsome, hpush⟩
    · rw [List.filterMap_cons_none hnone, hsame]
      exact ih h
    · rw [List.filterMap_cons_some hsome, hpush, List.append_cons]
      exact ih (h.push name operation)

/-- Whatever parameters a body has and whatever steps it was built by, no two names of parameters
    and results are equal, and each is what was wanted in its place, with the least number behind it
    that makes it free if the wanted name was taken by an earlier one. Where a name that is taken is
    wanted next, the search from what is remembered ends, and it ends at the same number as a search
    from one, which is that of the name that is given. -/
theorem local_names_allotted (params : List String) (commands : List Command) (ret : Value) :
    let b := build params commands
    let names := localNames (b.finish ret).params (b.finish ret).body.instructions
    let wanted := params ++ commands.filterMap Command.wanted?
    names.Nodup ∧ names.length = wanted.length ∧
      (∀ (k : Nat) (base name : String), wanted[k]? = some base → names[k]? = some name →
        GivenName (names.take k) base name) ∧
      ∀ base ∈ names, ∃ n rounds, (b.names.claim base).1 = base ++ toString n ∧
        ∀ tries, rounds ≤ tries →
          Names.firstFree b.names.used base tries (b.names.nextSuffix.getD base 1) = n ∧
            Names.firstFree b.names.used base tries 1 = n := by
  intro b names wanted
  obtain ⟨htracks, hallotted⟩ : b.Allots wanted := (Builder.allots_start params).foldl commands
  refine ⟨htracks.nodup, hallotted.length, hallotted.given, ?_⟩
  intro base hbase
  obtain ⟨n, -, -, -, hsearch, hends⟩ := htracks.search base
  refine ⟨n, n, ?_, hends⟩
  have hused : b.names.used.contains base = true :=
    Std.HashSet.mem_iff_contains.mp ((htracks.used base).mpr hbase)
  rw [Names.claim, if_pos hused]
  exact congrArg (Names.numbered base) hsearch

end Formulary

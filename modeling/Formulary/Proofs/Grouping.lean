import Formulary.Grammar.Chain
import Mathlib.Data.List.Basic

/-!
# Grouping is splitting at the rightmost operator of least precedence

`climb` walks along a chain and decides at each link whether it takes the next operand. The tree
it builds can be said without a walk: of the operators of least precedence in the chain the
rightmost one is the root, what stands before it is its left operand, and what stands behind it is
its right operand.

* `Grouped`: the tree of a chain by splitting.
* `Grouped.unique`: a chain has one tree.
* `climb_takes`: what `climb` takes from the front of a chain, and the tree it makes of it.
* `groupChain_eq_iff`: `groupChain` makes exactly the tree by splitting.
-/

namespace Formulary

/-- A precedence below another is not the greatest, so one more than it is its successor. -/
theorem add_one_le_iff_of_lt {p q : Int32} (h : p < q) (x : Int32) : p + 1 ≤ x ↔ p < x := by
  have hp := Int32.lt_iff_toInt_lt.mp h
  have hq := Int32.toInt_lt q
  have hle := Int32.le_toInt p
  have hadd : (p + 1).toInt = p.toInt + 1 := by
    rw [Int32.toInt_add, show (1 : Int32).toInt = 1 from rfl, Int.bmod_eq_of_le] <;> omega
  rw [Int32.le_iff_toInt_le, Int32.lt_iff_toInt_lt, hadd]
  omega

/-! ## The tree of a chain -/

/-- `Grouped first links e`: splitting the chain at the rightmost of its operators of least
    precedence, and both parts in the same way, makes the tree `e`. -/
inductive Grouped : Expr → List Link → Expr → Prop
  | single (first : Expr) : Grouped first [] first
  | split {first lhs rhs : Expr} {before after : List Link} {link : Link}
      (hbefore : ∀ l ∈ before, link.precedence ≤ l.precedence)
      (hafter : ∀ l ∈ after, link.precedence < l.precedence)
      (hlhs : Grouped first before lhs) (hrhs : Grouped link.operand after rhs) :
      Grouped first (before ++ link :: after) (.binary link.op lhs rhs)

/-- Of two splits of one chain the first is not in front of the second. -/
theorem not_split_before {before after mid : List Link} {link link' : Link}
    (hafter : ∀ l ∈ mid ++ link' :: after, link.precedence < l.precedence)
    (hbefore : ∀ l ∈ before ++ link :: mid, link'.precedence ≤ l.precedence) : False := by
  have h1 := hafter link' (by simp)
  have h2 := hbefore link (by simp)
  exact Int32.lt_irrefl (Int32.lt_of_lt_of_le h1 h2)

theorem split_unique {before before' after after' : List Link} {link link' : Link}
    (h : before ++ link :: after = before' ++ link' :: after')
    (hbefore : ∀ l ∈ before, link.precedence ≤ l.precedence)
    (hafter : ∀ l ∈ after, link.precedence < l.precedence)
    (hbefore' : ∀ l ∈ before', link'.precedence ≤ l.precedence)
    (hafter' : ∀ l ∈ after', link'.precedence < l.precedence) :
    before = before' ∧ link = link' ∧ after = after' := by
  rcases List.append_eq_append_iff.mp h with ⟨mid, rfl, ha⟩ | ⟨mid, rfl, ha⟩
  · cases mid with
    | nil =>
      obtain ⟨rfl, rfl⟩ := List.cons.inj ha
      exact ⟨(List.append_nil _).symm, rfl, rfl⟩
    | cons m mid =>
      obtain ⟨rfl, rfl⟩ := List.cons.inj ha
      exact (not_split_before hafter hbefore').elim
  · cases mid with
    | nil =>
      obtain ⟨rfl, rfl⟩ := List.cons.inj ha
      exact ⟨List.append_nil _, rfl, rfl⟩
    | cons m mid =>
      obtain ⟨rfl, rfl⟩ := List.cons.inj ha
      exact (not_split_before hafter' hbefore).elim

theorem Grouped.unique {first e e' : Expr} {links : List Link} (h : Grouped first links e)
    (h' : Grouped first links e') : e = e' := by
  induction h generalizing e' with
  | single first =>
    generalize hl : ([] : List Link) = links at h'
    cases h' with
    | single => rfl
    | split => simp at hl
  | @split first lhs rhs before after link hbefore hafter _ _ ihl ihr =>
    generalize hl : before ++ link :: after = links at h'
    cases h' with
    | single => simp at hl
    | split hbefore' hafter' hlhs' hrhs' =>
      obtain ⟨rfl, rfl, rfl⟩ := split_unique hl hbefore hafter hbefore' hafter'
      rw [ihl hlhs', ihr hrhs']

/-! ## What climbing takes -/

/-- `Takes binds lhs links r`: the links at the front whose precedences bind are taken, all of
    them, and `r` is their tree with the links that are left. -/
def Takes (binds : Int32 → Prop) (lhs : Expr) (links : List Link) (r : Expr × List Link) : Prop :=
  ∃ taken, links = taken ++ r.2 ∧ (∀ l ∈ taken, binds l.precedence) ∧
    (∀ l tail, r.2 = l :: tail → ¬ binds l.precedence) ∧ Grouped lhs taken r.1

theorem Takes.none {binds : Int32 → Prop} (lhs : Expr) {links : List Link}
    (h : ∀ l tail, links = l :: tail → ¬ binds l.precedence) : Takes binds lhs links (lhs, links) :=
  ⟨[], rfl, by simp, h, .single lhs⟩

/-- An operator whose right operand ends before a link that binds no tighter stands, with its two
    operands, where an operand stood. -/
theorem Grouped.cons_of_binary {link : Link} {lhs rhs e : Expr} {taken rest : List Link}
    (hrhs : Grouped link.operand taken rhs) (htaken : ∀ l ∈ taken, link.precedence < l.precedence)
    (hhead : ∀ l tail, rest = l :: tail → l.precedence ≤ link.precedence)
    (h : Grouped (.binary link.op lhs rhs) rest e) : Grouped lhs (link :: (taken ++ rest)) e := by
  -- on the tree of the rest: its root stays the root, since it binds no tighter than `link`
  generalize hfirst : Expr.binary link.op lhs rhs = first at h
  induction h with
  | single first =>
    subst hfirst
    rw [List.append_nil]
    exact .split (by simp) htaken (.single lhs) hrhs
  | @split first lhs' rhs' before after least hbefore hafter _ hrhs' ihl _ =>
    have hleast : least.precedence ≤ link.precedence := by
      cases before with
      | nil => exact hhead least after rfl
      | cons b before => exact Int32.le_trans (hbefore b (by simp)) (hhead b _ rfl)
    have hlhs := ihl (fun l tail hl => hhead l (tail ++ least :: after) (by simp [hl])) hfirst
    have hall : ∀ l ∈ link :: (taken ++ before), least.precedence ≤ l.precedence := by
      intro l hl
      rcases List.mem_cons.mp hl with rfl | hl
      · exact hleast
      · rcases List.mem_append.mp hl with hl | hl
        · exact Int32.le_trans hleast (Int32.le_of_lt (htaken l hl))
        · exact hbefore l hl
    have hjoin := Grouped.split hall hafter hlhs hrhs'
    rwa [List.cons_append, List.append_assoc] at hjoin

/-- A link that binds takes its right operand, and then the rest is taken. -/
theorem Takes.cons {least : Int32} {link : Link} {lhs : Expr} {rest : List Link}
    {right r : Expr × List Link} (hleast : least ≤ link.precedence)
    (hright : Takes (link.precedence < ·) link.operand rest right)
    (hrest : Takes (least ≤ ·) (.binary link.op lhs right.1) right.2 r) :
    Takes (least ≤ ·) lhs (link :: rest) r := by
  obtain ⟨taken, hlinks, htaken, hhead, hrhs⟩ := hright
  obtain ⟨more, hmore, hall, hstop, hgroup⟩ := hrest
  refine ⟨link :: (taken ++ more), ?_, ?_, hstop, ?_⟩
  · rw [hlinks, hmore, List.cons_append, List.append_assoc]
  · intro l hl
    rcases List.mem_cons.mp hl with rfl | hl
    · exact hleast
    · rcases List.mem_append.mp hl with hl | hl
      · exact Int32.le_trans hleast (Int32.le_of_lt (htaken l hl))
      · exact hall l hl
  · refine hrhs.cons_of_binary htaken (fun l tail hl => ?_) hgroup
    exact Int32.not_lt.mp (hhead l (tail ++ r.2) (by rw [hmore, hl, List.cons_append]))

/-- `climb` takes the links at the front that bind at least as tightly as `least`. -/
theorem climb_takes (least : Int32) (lhs : Expr) (links : List Link) :
    Takes (least ≤ ·) lhs links (climb least lhs links).1 := by
  match links with
  | [] =>
    rw [climb_nil]
    exact .none lhs (by simp)
  | link :: rest =>
    by_cases hlt : link.precedence < least
    · rw [climb_cons_of_lt lhs rest hlt]
      refine .none lhs (fun l tail hl => ?_)
      obtain ⟨rfl, -⟩ := List.cons.inj hl
      exact Int32.not_le.mpr hlt
    · rw [climb_cons_of_not_lt lhs rest hlt]
      -- the right operand takes the links that bind tighter than its operator
      have hright : Takes (link.precedence < ·) link.operand rest
          (if tighterAhead link.precedence rest
            then (climb (link.precedence + 1) link.operand rest).1 else (link.operand, rest)) := by
        split_ifs with htighter
        · have htakes := climb_takes (link.precedence + 1) link.operand rest
          cases rest with
          | nil => simp [tighterAhead] at htighter
          | cons next rest =>
            have hnext : link.precedence < next.precedence := by
              simpa [tighterAhead] using htighter
            simpa only [add_one_le_iff_of_lt hnext] using htakes
        · refine .none _ (fun l tail hl => ?_)
          rw [hl] at htighter
          simpa [tighterAhead] using htighter
      have hlen : (if tighterAhead link.precedence rest
          then (climb (link.precedence + 1) link.operand rest).1
          else (link.operand, rest)).2.length ≤ rest.length := by
        obtain ⟨taken, hrest, -⟩ := hright
        have := congrArg List.length hrest
        rw [List.length_append] at this
        omega
      exact .cons (Int32.not_lt.mp hlt) hright (climb_takes least _ _)
termination_by links.length

/-- Grouping a chain of operators makes its tree by splitting. -/
theorem groupChain_grouped {first : Expr} {links : List Link}
    (hpos : ∀ l ∈ links, 0 < l.precedence) : Grouped first links (groupChain first links) := by
  obtain ⟨taken, hlinks, -, hstop, hgroup⟩ := climb_takes 0 first links
  have hrest : (climb 0 first links).1.2 = [] := by
    cases hrest : (climb 0 first links).1.2 with
    | nil => rfl
    | cons l tail =>
      have hl := hpos l (by rw [hlinks, hrest]; simp)
      exact (hstop l tail hrest (Int32.le_of_lt hl)).elim
  rw [hrest, List.append_nil] at hlinks
  rw [← hlinks] at hgroup
  exact hgroup

/-- Grouping a chain of operators makes exactly its tree by splitting. -/
theorem groupChain_eq_iff {first e : Expr} {links : List Link}
    (hpos : ∀ l ∈ links, 0 < l.precedence) :
    groupChain first links = e ↔ Grouped first links e := by
  constructor
  · rintro rfl
    exact groupChain_grouped hpos
  · intro h
    exact (groupChain_grouped hpos).unique h

end Formulary

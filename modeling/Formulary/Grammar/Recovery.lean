import Formulary.Grammar.Program

/-!
# Going on after a fault

A fault ends the construct it is in, and reading goes on one token further. Every construct and
every fault uses up a token, so a program has finitely many outcomes.

* `Parsed.resume`: where reading goes on.
* `length_resume_lt`: each construct and each fault uses up a token.
* `outcomes`: the constructs and faults of a whole program.
-/

namespace Formulary

/-- The tokens with which reading goes on (`skip_token`): those that are left, after a fault without
    the first of them. -/
def Parsed.resume {α : Type} (p : Parsed α) : List Token :=
  match p.result with
  | .ok _ => p.rest
  | .error _ => p.rest.tail

/-! ## A phrase that is read is not empty -/

/-- Success of a phrase and all behind it is success of the phrase. -/
theorem Parsed.bind_eq_ok {α β : Type} {p : Parsed α} {next : α → List Token → Parsed β} {b : β}
    (h : (p.bind next).result = .ok b) :
    ∃ a, p.result = .ok a ∧ (next a p.rest).result = .ok b ∧
      (p.bind next).rest = (next a p.rest).rest := by
  unfold Parsed.bind at h ⊢
  split at h
  · next a ha => exact ⟨a, ha, h, rfl⟩
  · simp [Parsed.fail] at h

theorem readPrimary_rest_lt {inner : Reader Expr} {tokens : List Token} {e : Expr}
    (h : (readPrimary inner tokens).result = .ok e) :
    (readPrimary inner tokens).rest.length < tokens.length := by
  unfold readPrimary at h ⊢
  split
  · exact Nat.lt_succ_of_le (readReference_suffix inner _ _).length_le
  · exact Nat.lt_succ_self _
  · next rest =>
    have hs : ((inner.read rest).bind readClosing).rest <:+ rest :=
      Parsed.bind_suffix (inner.suffix _) fun e rest h => (readClosing_suffix e rest).trans h
    exact Nat.lt_succ_of_le hs.length_le
  · simp [Parsed.fail] at h

theorem readExpression_rest_lt {table : PrecedenceTable} {tokens : List Token} {e : Expr}
    (h : (readExpression table tokens).result = .ok e) :
    (readExpression table tokens).rest.length < tokens.length := by
  obtain ⟨first, hfirst, -, hrest⟩ := Parsed.bind_eq_ok h
  have hle : (readExpression table tokens).rest.length ≤
      (readPrimary (expression table 255) tokens).rest.length := by
    refine Nat.le_trans (Nat.le_of_eq (congrArg List.length hrest)) ?_
    rw [Parsed.rest_map]
    exact (readLinks_suffix table _ [] _).length_le
  exact Nat.lt_of_le_of_lt hle (readPrimary_rest_lt hfirst)

/-- While there are tokens, a construct uses up at least one. -/
theorem readConstruct_rest_lt {table : PrecedenceTable} {tokens : List Token} {c : Construct}
    (hne : tokens ≠ []) (h : (readConstruct table tokens).result = .ok c) :
    (readConstruct table tokens).rest.length < tokens.length := by
  revert h
  unfold readConstruct
  split <;> intro h
  · exact absurd rfl hne
  · exact Nat.lt_succ_self _
  · next rest =>
    refine Nat.lt_succ_of_le (List.IsSuffix.length_le ?_)
    refine Parsed.bind_suffix (readPrototype_suffix rest) fun proto rest h => ?_
    rw [Parsed.rest_map]
    exact (readExpression_suffix table rest).trans h
  · rw [Parsed.rest_map]
    exact Nat.lt_succ_of_le (readPrototype_suffix _).length_le
  · obtain ⟨body, hbody, -, -⟩ := Parsed.bind_eq_ok h
    rw [Parsed.rest_map]
    exact readExpression_rest_lt hbody

/-- While there are tokens, each construct and each fault uses up at least one. -/
theorem length_resume_lt (table : PrecedenceTable) {tokens : List Token} (hne : tokens ≠ []) :
    (readConstruct table tokens).resume.length < tokens.length := by
  unfold Parsed.resume
  split
  · next c hc => exact readConstruct_rest_lt hne hc
  · have hle := (readConstruct_suffix table tokens).length_le
    have hpos := List.length_pos_iff.2 hne
    rw [List.length_tail]
    omega

/-! ## Whole programs -/

/-- The constructs and faults of a program, in order. -/
def outcomes (table : PrecedenceTable) (tokens : List Token) :
    List (Except ParseError Construct) :=
  if _h : tokens = [] then []
  else
    let parsed := readConstruct table tokens
    parsed.result :: outcomes table parsed.resume
termination_by tokens.length
decreasing_by exact length_resume_lt table _h

end Formulary

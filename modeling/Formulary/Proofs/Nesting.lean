import Formulary.Proofs.Display

/-!
# More levels change only what was refused for its depth

A reader that may open more expressions reads as before, unless it was refused for opening too
many. So a phrase with any number of expressions nested in it is either read or refused for its
depth, whatever the limit.

* `Parsed.Deepens`: the same outcome, unless the first one is the refusal of a depth.
* `expression_deepens`: more levels change nothing else.
* `Phrase.read_or_tooDeep`: a phrase is read or refused for its depth.
-/

namespace Formulary

variable {α β : Type}

/-! ## Outcomes with more levels -/

namespace Parsed

/-- The second outcome is the first one, unless the first one is the refusal of a depth. -/
def Deepens (p q : Parsed α) : Prop := p.TooDeep ∨ q = p

variable {p q : Parsed α}

theorem Deepens.refl (p : Parsed α) : p.Deepens p := .inr rfl

theorem Deepens.bind (h : p.Deepens q) {next next' : α → List Token → Parsed β}
    (hnext : ∀ a rest, (next a rest).Deepens (next' a rest)) :
    (p.bind next).Deepens (q.bind next') := by
  rcases h with h | rfl
  · exact .inl (h.bind next)
  · rcases q with ⟨result, rest⟩
    cases result with
    | ok a => exact hnext a rest
    | error e => exact .refl _

theorem Deepens.map (h : p.Deepens q) (f : α → β) : (p.map f).Deepens (q.map f) :=
  h.bind fun _ _ => .refl _

end Parsed

/-- The second reader gives the outcomes of the first one, refusals of a depth apart. -/
def Reader.Deepens (r r' : Reader α) : Prop := ∀ tokens, (r.read tokens).Deepens (r'.read tokens)

/-! ## Expressions -/

section Deepens

variable {table : PrecedenceTable} {inner inner' : Reader Expr}

theorem readArguments_deepens (h : inner.Deepens inner') (done : List Expr) (tokens : List Token) :
    (readArguments inner done tokens).Deepens (readArguments inner' done tokens) := by
  induction hn : tokens.length using Nat.strongRecOn generalizing done tokens with
  | ind n ih =>
    rw [readArguments_eq_bind, readArguments_eq_bind]
    rcases h tokens with hdeep | heq
    · exact .inl (hdeep.bind _)
    · rw [heq]
      rcases hread : inner.read tokens with ⟨result, rest⟩
      cases result with
      | error e => exact .refl _
      | ok arg =>
        simp only [Parsed.bind]
        split
        · exact .refl _
        · next rest =>
          exact ih _ (hn ▸ inner.length_lt_of_rest (by rw [hread])) _ rest rfl
        · exact .refl _

theorem readCall_deepens (h : inner.Deepens inner') (callee : String) (tokens : List Token) :
    (readCall inner callee tokens).Deepens (readCall inner' callee tokens) := by
  unfold readCall
  split
  · exact .refl _
  · exact .refl _
  · exact (readArguments_deepens h [] _).map _

theorem readPrimary_deepens (h : inner.Deepens inner') (tokens : List Token) :
    (readPrimary inner tokens).Deepens (readPrimary inner' tokens) := by
  unfold readPrimary
  split
  · unfold readReference
    split
    · exact readCall_deepens h _ _
    · exact .refl _
    · exact .refl _
  · exact .refl _
  · exact (h _).bind fun _ _ => .refl _
  · exact .refl _

theorem readLinks_deepens {operand operand' : Reader Expr} (h : operand.Deepens operand')
    (done : List Link) (tokens : List Token) :
    (readLinks table operand done tokens).Deepens (readLinks table operand' done tokens) := by
  induction hn : tokens.length using Nat.strongRecOn generalizing done tokens with
  | ind n ih =>
    rcases notOperator_or_operator table tokens with hop | ⟨op, rest, precedence, rfl, hop⟩
    · rw [readLinks_of_notOperator operand done hop, readLinks_of_notOperator operand' done hop]
      exact .refl _
    · rw [readLinks_eq_bind hop, readLinks_eq_bind hop]
      rcases h rest with hdeep | heq
      · exact .inl (hdeep.bind _)
      · rw [heq]
        rcases hread : operand.read rest with ⟨result, left⟩
        cases result with
        | error e => exact .refl _
        | ok rhs =>
          have hlt : left.length < n := hn ▸ Nat.lt_succ_of_le (operand.length_le_of_read hread)
          exact ih _ hlt _ left rfl

theorem chain_deepens (h : inner.Deepens inner') :
    (chain table (primary inner)).Deepens (chain table (primary inner')) := by
  have hprimary : (primary inner).Deepens (primary inner') := readPrimary_deepens h
  intro tokens
  exact (hprimary tokens).bind fun first rest => (readLinks_deepens hprimary [] rest).map _

/-- More levels change nothing but the refusal of a depth. -/
theorem expression_deepens (table : PrecedenceTable) {n m : Nat} (h : n ≤ m) :
    (expression table n).Deepens (expression table m) := by
  induction n generalizing m with
  | zero => exact fun tokens => .inl rfl
  | succ n ih =>
    obtain ⟨m, rfl⟩ : ∃ k, m = k + 1 := ⟨m - 1, by omega⟩
    exact chain_deepens (ih (by omega))

end Deepens

/-- A phrase is read or refused for its depth, whatever the limit. -/
theorem Phrase.read_or_tooDeep {table : PrecedenceTable} (htable : table.SparesPunctuation)
    {n : Nat} {c : List Token} {e : Expr} (h : Phrase table n c e) (levels : Nat) :
    ((expression table levels).read c).TooDeep ∨ (expression table levels).read c = .ok e [] := by
  have hread : (expression table n).read c = .ok e [] := by
    have hread := h.read htable [] ⟨by simp [NotOperator], by simp [NotOpening]⟩
      (by simp [NotMalformed])
    rwa [List.append_nil] at hread
  -- with as many levels as both have, the phrase is read
  have hmax : (expression table (max n levels)).read c = .ok e [] := by
    rcases expression_deepens table (Nat.le_max_left n levels) c with hdeep | heq
    · rw [hread] at hdeep
      simp [Parsed.TooDeep, Parsed.ok] at hdeep
    · rw [heq, hread]
  rcases expression_deepens table (Nat.le_max_right n levels) c with hdeep | heq
  · exact .inl hdeep
  · exact .inr (heq ▸ hmax)

end Formulary

import Formulary.Proofs.Constructs
import Formulary.Proofs.Lookahead

/-!
# A fault is at the first token that cannot stand there

Where reading meets a fault, other than the refusal of a depth, the tokens that it has taken are the
front of a construct, and no construct begins with them and the token in sight. So the fault is met
as soon as there is one, and the token that is skipped after it is the first that is out of place.

* `GoesOn`: what has been taken at a fault is the front of a phrase.
* `expression_goesOn`, `readConstruct_goesOn`: this holds of expressions and of constructs.
* `ContinuesAt`: tokens that begin with what was taken and with the token in sight.
* `ConstructPhrase.not_continuesAt`: no construct continues at a fault.
* `fault_at_first_offending_token`: both together.
-/

namespace Formulary

variable {α β : Type}

/-! ## Faults of readers -/

namespace Parsed

theorem fail_inj {e e' : ParseError} {r s : List Token} :
    (fail e r : Parsed α) = fail e' s ↔ e = e' ∧ r = s := by
  simp [fail]

theorem ok_ne_fail (e : ParseError) (a : α) (r s : List Token) :
    (ok a r : Parsed α) ≠ fail e s := by
  simp [fail, ok]

theorem bind_eq_fail_iff {p : Parsed α} {next : α → List Token → Parsed β} {e : ParseError}
    {r : List Token} :
    p.bind next = fail e r ↔ p = fail e r ∨ ∃ a rest, p = ok a rest ∧ next a rest = fail e r := by
  obtain ⟨result, rest⟩ := p
  cases result with
  | ok a => simp [bind, ok, fail]
  | error e' => simp [bind, ok, fail]

theorem map_eq_fail_iff {p : Parsed α} {f : α → β} {e : ParseError} {r : List Token} :
    p.map f = fail e r ↔ p = fail e r := by
  unfold map
  rw [bind_eq_fail_iff]
  simp [ok_ne_fail]

end Parsed

/-- Where a fault other than the refusal of a depth is met, what has been taken is the front of
    longer tokens of the kind. -/
def GoesOn (kind : List Token → Prop) (read : List Token → Parsed α) : Prop :=
  ∀ tokens e rest, read tokens = .fail e rest → e ≠ .nestingTooDeep nestingLimit →
    ∃ c d, tokens = c ++ rest ∧ d ≠ [] ∧ kind (c ++ d)

/-! ## Expressions go on -/

section Expressions

variable {table : PrecedenceTable} {n : Nat} {inner : Reader Expr}

/-- The tokens are an expression. -/
def IsPhrase (table : PrecedenceTable) (n : Nat) (s : List Token) : Prop := ∃ e, Phrase table n s e

/-- The tokens are a primary. -/
def IsPrimary (table : PrecedenceTable) (n : Nat) (s : List Token) : Prop :=
  ∃ e, PrimaryPhrase table n s e

theorem readArguments_goesOn (hsound : ReadsPhrases table n inner)
    (hinner : GoesOn (IsPhrase table n) inner.read) (done : List Expr) :
    GoesOn (fun s => ∃ a args, s = a ++ [.symbol ')'] ∧ ArgumentPhrases table n a args)
      (readArguments inner done) := by
  intro tokens e rest h hdepth
  fun_induction readArguments inner done tokens with
  | case1 done tokens parsed e' he =>
    obtain ⟨rfl, rfl⟩ := Parsed.fail_inj.mp h
    obtain ⟨c, d, hc, hd, arg, harg⟩ := hinner tokens e' _ (congrArg₂ Parsed.mk he rfl) hdepth
    exact ⟨c, d ++ [.symbol ')'], hc, by simp, c ++ d, [arg], by simp, .last harg⟩
  | case2 done tokens parsed arg harg rest' hrest => exact (Parsed.ok_ne_fail _ _ _ _ h).elim
  | case3 done tokens parsed arg harg rest' hrest ih =>
    obtain ⟨c, d, rfl, hd, a, args, ha, hargs⟩ := ih h
    obtain ⟨first, hfirst, hphrase, -⟩ := hsound tokens arg _ (congrArg₂ Parsed.mk harg hrest)
    refine ⟨first ++ .symbol ',' :: c, d, by simp [hfirst], hd, first ++ .symbol ',' :: a,
      arg :: args, ?_, .cons hphrase hargs⟩
    rw [List.append_assoc, List.cons_append, ha, List.append_assoc, List.cons_append]
  | case4 done tokens parsed arg harg hclose hcomma =>
    obtain ⟨-, rfl⟩ := Parsed.fail_inj.mp h
    obtain ⟨c, hc, hphrase, -⟩ := hsound tokens arg _ (congrArg₂ Parsed.mk harg rfl)
    exact ⟨c, [.symbol ')'], hc, by simp, c, [arg], rfl, .last hphrase⟩

theorem readCall_goesOn (hsound : ReadsPhrases table n inner)
    (hinner : GoesOn (IsPhrase table n) inner.read) (callee : String) :
    GoesOn (fun s => IsPrimary table n (.identifier callee :: .symbol '(' :: s))
      (readCall inner callee) := by
  intro tokens e rest h hdepth
  unfold readCall at h
  split at h
  · exact (Parsed.ok_ne_fail _ _ _ _ h).elim
  · obtain ⟨-, rfl⟩ := Parsed.fail_inj.mp h
    exact ⟨[], [.symbol ')'], rfl, by simp, _, .callEmpty callee⟩
  · obtain ⟨c, d, hc, hd, a, args, ha, hargs⟩ := readArguments_goesOn hsound hinner [] tokens e rest
      (Parsed.map_eq_fail_iff.mp h) hdepth
    refine ⟨c, d, hc, hd, .call callee args, ?_⟩
    rw [ha]
    exact .call callee hargs

theorem readReference_goesOn (hsound : ReadsPhrases table n inner)
    (hinner : GoesOn (IsPhrase table n) inner.read) (name : String) :
    GoesOn (fun s => IsPrimary table n (.identifier name :: s)) (readReference inner name) := by
  intro tokens e rest h hdepth
  unfold readReference at h
  split at h
  · next tail =>
    obtain ⟨c, d, rfl, hd, hprimary⟩ := readCall_goesOn hsound hinner name tail e rest h hdepth
    exact ⟨.symbol '(' :: c, d, rfl, hd, hprimary⟩
  · obtain ⟨-, rfl⟩ := Parsed.fail_inj.mp h
    exact ⟨[], [.symbol '(', .symbol ')'], rfl, by simp, _, .callEmpty name⟩
  · exact (Parsed.ok_ne_fail _ _ _ _ h).elim

theorem readPrimary_goesOn (hsound : ReadsPhrases table n inner)
    (hinner : GoesOn (IsPhrase table n) inner.read) :
    GoesOn (IsPrimary table n) (readPrimary inner) := by
  intro tokens e rest h hdepth
  unfold readPrimary at h
  split at h
  · next name tail =>
    obtain ⟨c, d, rfl, hd, hprimary⟩ := readReference_goesOn hsound hinner name tail e rest h hdepth
    exact ⟨.identifier name :: c, d, rfl, hd, hprimary⟩
  · exact (Parsed.ok_ne_fail _ _ _ _ h).elim
  · next tail =>
    rcases Parsed.bind_eq_fail_iff.mp h with hfail | ⟨arg, behind, hread, hclose⟩
    · obtain ⟨c, d, rfl, hd, arg, harg⟩ := hinner tail e rest hfail hdepth
      refine ⟨.symbol '(' :: c, d ++ [.symbol ')'], rfl, by simp, arg, ?_⟩
      rw [List.cons_append, ← List.append_assoc]
      exact .parens harg
    · -- the expression inside is read, and the parenthesis behind it is missing
      obtain ⟨c, rfl, hphrase, -⟩ := hsound tail arg behind hread
      unfold readClosing at hclose
      split at hclose
      · exact (Parsed.ok_ne_fail _ _ _ _ hclose).elim
      · obtain ⟨-, rfl⟩ := Parsed.fail_inj.mp hclose
        exact ⟨.symbol '(' :: c, [.symbol ')'], rfl, by simp, arg, .parens hphrase⟩
  · obtain ⟨-, rfl⟩ := Parsed.fail_inj.mp h
    exact ⟨[], [.number .zero], rfl, by simp, _, .number .zero⟩

theorem readLinks_goesOn (hsound : ReadsPhrases table n inner)
    (hinner : GoesOn (IsPhrase table n) inner.read) (done : List Link) :
    GoesOn (fun s => ∃ links, LinkPhrases table n s links)
      (readLinks table (primary inner) done) := by
  intro tokens e rest h hdepth
  fun_induction readLinks table (primary inner) done tokens with
  | case1 done op tail hop => exact (Parsed.ok_ne_fail _ _ _ _ h).elim
  | case2 done op tail precedence hop parsed e' he =>
    obtain ⟨rfl, rfl⟩ := Parsed.fail_inj.mp h
    obtain ⟨c, d, hc, hd, operand, hoperand⟩ :=
      readPrimary_goesOn hsound hinner tail e' _ (congrArg₂ Parsed.mk he rfl) hdepth
    refine ⟨.symbol op :: c, d, congrArg _ hc, hd, [⟨op, precedence, operand⟩], ?_⟩
    have hlinks := LinkPhrases.cons hop hoperand .nil
    rwa [List.append_nil] at hlinks
  | case3 done op tail precedence hop parsed rhs hrhs ih =>
    obtain ⟨c, d, hc, hd, links, hlinks⟩ := ih h
    have hread : (primary inner).read tail = .ok rhs parsed.rest := congrArg₂ Parsed.mk hrhs rfl
    obtain ⟨first, hfirst, hphrase, -⟩ := readPrimary_sound hsound hread
    refine ⟨.symbol op :: (first ++ c), d, ?_, hd, ⟨op, precedence, rhs⟩ :: links, ?_⟩
    · rw [hfirst, hc, List.cons_append, List.append_assoc]
    · rw [List.cons_append, List.append_assoc]
      exact .cons hop hphrase hlinks
  | case4 done tokens hsymbol => exact (Parsed.ok_ne_fail _ _ _ _ h).elim

theorem chain_goesOn (hsound : ReadsPhrases table n inner)
    (hinner : GoesOn (IsPhrase table n) inner.read) :
    GoesOn (IsPhrase table (n + 1)) (chain table (primary inner)).read := by
  intro tokens e rest h hdepth
  change readChain table (primary inner) tokens = .fail e rest at h
  unfold readChain at h
  rcases Parsed.bind_eq_fail_iff.mp h with hfail | ⟨first, behind, hfirst, hmap⟩
  · obtain ⟨c, d, hc, hd, first, hfirst⟩ :=
      readPrimary_goesOn hsound hinner tokens e rest hfail hdepth
    exact ⟨c, d, hc, hd, first, hfirst.toPhrase⟩
  · obtain ⟨c, hc, hprimary, -⟩ := readPrimary_sound hsound hfirst
    obtain ⟨c', d, rfl, hd, links, hlinks⟩ := readLinks_goesOn hsound hinner [] behind e rest
      (Parsed.map_eq_fail_iff.mp hmap) hdepth
    refine ⟨c ++ c', d, by rw [hc, List.append_assoc], hd, groupChain first links, ?_⟩
    rw [List.append_assoc]
    exact .chain hprimary hlinks (groupChain_grouped hlinks.precedence_pos)

/-- At a fault in an expression the tokens taken are the front of an expression. -/
theorem expression_goesOn (table : PrecedenceTable) (n : Nat) :
    GoesOn (IsPhrase table n) (expression table n).read := by
  induction n with
  | zero =>
    intro tokens e rest h hdepth
    exact (hdepth (Parsed.fail_inj.mp h).1.symm).elim
  | succ n ih => exact chain_goesOn (expression_sound table n) ih

end Expressions

/-! ## Constructs go on -/

theorem readParams_goesOn (done : List String) :
    GoesOn (fun s => ∃ params : List String, s = params.map .identifier ++ [.symbol ')'])
      (readParams done) := by
  intro tokens e rest h hdepth
  fun_induction readParams done tokens with
  | case1 done name tail ih =>
    obtain ⟨c, d, rfl, hd, params, hparams⟩ := ih h
    exact ⟨.identifier name :: c, d, rfl, hd, name :: params, by simp [hparams]⟩
  | case2 done tail => exact (Parsed.ok_ne_fail _ _ _ _ h).elim
  | case3 done tokens hname hclose =>
    obtain ⟨-, rfl⟩ := Parsed.fail_inj.mp h
    exact ⟨[], [.symbol ')'], rfl, by simp, [], rfl⟩

theorem readPrototype_goesOn : GoesOn (fun s => ∃ p, s = Prototype.spelling p) readPrototype := by
  intro tokens e rest h hdepth
  unfold readPrototype at h
  split at h
  · next name tail =>
    unfold readSignature at h
    split at h
    · next inner =>
      obtain ⟨c, d, rfl, hd, params, hparams⟩ :=
        readParams_goesOn [] inner e rest (Parsed.map_eq_fail_iff.mp h) hdepth
      refine ⟨.identifier name :: .symbol '(' :: c, d, rfl, hd, ⟨name, params⟩, ?_⟩
      rw [List.cons_append, List.cons_append, hparams]
      rfl
    · obtain ⟨-, rfl⟩ := Parsed.fail_inj.mp h
      exact ⟨[.identifier name], [.symbol '(', .symbol ')'], rfl, by simp, ⟨name, []⟩, rfl⟩
  · obtain ⟨-, rfl⟩ := Parsed.fail_inj.mp h
    exact ⟨[], Prototype.spelling ⟨"f", []⟩, rfl, by simp [Prototype.spelling], ⟨"f", []⟩, rfl⟩

/-- At a fault the tokens taken are the front of a construct. -/
theorem readConstruct_goesOn (table : PrecedenceTable) :
    GoesOn (fun s => ∃ k, ConstructPhrase table nestingLimit s k) (readConstruct table) := by
  have hexpression : GoesOn (IsPhrase table nestingLimit) (readExpression table) :=
    expression_goesOn table nestingLimit
  have hnumber : Phrase table nestingLimit [.number .zero] (.number .zero) :=
    (PrimaryPhrase.number (n := 255) .zero).toPhrase
  intro tokens e rest h hdepth
  unfold readConstruct at h
  split at h
  · exact (Parsed.ok_ne_fail _ _ _ _ h).elim
  · exact (Parsed.ok_ne_fail _ _ _ _ h).elim
  · next tail =>
    rcases Parsed.bind_eq_fail_iff.mp h with hfail | ⟨p, behind, hp, hmap⟩
    · obtain ⟨c, d, rfl, hd, p, hp⟩ := readPrototype_goesOn tail e rest hfail hdepth
      refine ⟨.define :: c, d ++ [.number .zero], rfl, by simp, .definition ⟨p, .number .zero⟩, ?_⟩
      rw [List.cons_append, ← List.append_assoc, hp]
      exact .definition p hnumber
    · obtain ⟨c, d, rfl, hd, body, hbody⟩ :=
        hexpression behind e rest (Parsed.map_eq_fail_iff.mp hmap) hdepth
      refine ⟨.define :: (p.spelling ++ c), d, ?_, hd, .definition ⟨p, body⟩, ?_⟩
      · rw [readPrototype_sound hp, List.cons_append, List.append_assoc]
      · rw [List.cons_append, List.append_assoc]
        exact .definition p hbody
  · next tail =>
    obtain ⟨c, d, rfl, hd, p, hp⟩ :=
      readPrototype_goesOn tail e rest (Parsed.map_eq_fail_iff.mp h) hdepth
    refine ⟨.declare :: c, d, rfl, hd, .declaration p, ?_⟩
    rw [List.cons_append, hp]
    exact .declaration p
  · obtain ⟨c, d, hc, hd, body, hbody⟩ :=
      hexpression tokens e rest (Parsed.map_eq_fail_iff.mp h) hdepth
    exact ⟨c, d, hc, hd, _, .expression hbody⟩

/-! ## Nothing goes on with the token in sight -/

/-- The tokens `s` begin with `c` and the first token of `rest`; at the end of the program, where
    nothing is left, they are `c`. -/
def ContinuesAt (c rest s : List Token) : Prop :=
  match rest with
  | [] => s = c
  | t :: _ => c ++ [t] <+: s

/-- No construct, however many expressions are nested in it, begins with what was taken at a fault
    and the token in sight. -/
theorem ConstructPhrase.not_continuesAt {table : PrecedenceTable} (htable : table.SparesPunctuation)
    {n : Nat} {c rest s : List Token} {e : ParseError} {k : Construct}
    (hfault : readConstruct table (c ++ rest) = .fail e rest)
    (hdepth : e ≠ .nestingTooDeep nestingLimit) (h : ConstructPhrase table n s k) :
    ¬ ContinuesAt c rest s := by
  intro hcontinues
  -- the reader looks no further than the token in sight, so it meets the same fault in `s`
  have hsame : ∃ r, readConstruct table s = .fail e r := by
    cases rest with
    | nil =>
      obtain rfl : s = c := hcontinues
      exact ⟨[], by rwa [List.append_nil] at hfault⟩
    | cons t rest =>
      obtain ⟨behind, rfl⟩ := hcontinues
      rw [show c ++ t :: rest = c ++ [t] ++ rest by simp] at hfault
      exact ⟨t :: behind, readConstruct_oneAhead table _ rest (.fail e [t]) (by simp) hfault behind⟩
  obtain ⟨r, hr⟩ := hsame
  rcases h.read_or_tooDeep htable with hdeep | hread
  · rw [hr] at hdeep
    exact hdepth (Except.error.inj hdeep)
  · rw [hr] at hread
    exact Parsed.fail_ne_ok _ _ _ _ hread

/-- A fault, other than the refusal of a depth, is met at the first token that no construct has in
    this place. The tokens taken before are the front of a construct in which at most `nestingLimit`
    expressions are nested, and not all of it. No construct begins with them and the token in sight,
    nor, at the end of the program, is one made of them alone. And the session goes on with the
    tokens behind the one in sight. -/
theorem fault_at_first_offending_token {table : PrecedenceTable} (htable : table.SparesPunctuation)
    {tokens rest : List Token} {e : ParseError} (hfault : readConstruct table tokens = .fail e rest)
    (hdepth : e ≠ .nestingTooDeep nestingLimit) :
    ∃ c, tokens = c ++ rest ∧
      (∃ d k, d ≠ [] ∧ ConstructPhrase table nestingLimit (c ++ d) k) ∧
      (∀ n s k, ConstructPhrase table n s k → ¬ ContinuesAt c rest s) ∧
      ∀ code, Session.step table ⟨tokens, code⟩ =
        some (.error (.parse e), ⟨rest.tail, code⟩) := by
  obtain ⟨c, d, rfl, hd, k, hk⟩ := readConstruct_goesOn table tokens e rest hfault hdepth
  refine ⟨c, rfl, ⟨d, k, hd, hk⟩, ?_, ?_⟩
  · intro n s k h
    exact h.not_continuesAt htable hfault hdepth
  · intro code
    have hne : (c ++ rest).isEmpty = false := by
      rw [Bool.eq_false_iff]
      intro hempty
      rw [List.isEmpty_iff.mp hempty] at hfault
      exact Parsed.ok_ne_fail _ _ _ _ hfault
    simp only [Session.step, hne, hfault]
    rfl

/-- In `def f(x) g(x ; 1` the semicolon is out of place: an argument has been read, and only an
    operator, a comma or a parenthesis can stand behind it. -/
theorem fault_at_semicolon_in_call :
    let taken : List Token := [.define, .identifier "f", .symbol '(', .identifier "x", .symbol ')',
      .identifier "g", .symbol '(', .identifier "x"]
    let left : List Token := [.symbol ';', .number .one]
    PrecedenceTable.standard.SparesPunctuation ∧
      readConstruct .standard (taken ++ left) = .fail .expectedArgumentSeparator left ∧
      (∃ d k, d ≠ [] ∧ ConstructPhrase .standard nestingLimit (taken ++ d) k) ∧
      ∀ n s k, ConstructPhrase .standard n s k → ¬ taken ++ [.symbol ';'] <+: s := by
  intro taken left
  have hrun : (readConstruct .standard (taken ++ left)).rest = left ∧
      (readConstruct .standard (taken ++ left)).result.map (fun _ => ()) =
        .error .expectedArgumentSeparator := by decide +kernel
  have hfault : readConstruct .standard (taken ++ left) =
      .fail .expectedArgumentSeparator left := by
    rcases hread : readConstruct .standard (taken ++ left) with ⟨result, rest⟩
    rw [hread] at hrun
    obtain ⟨rfl, hresult⟩ := hrun
    cases result with
    | ok k => simp [Except.map] at hresult
    | error e =>
      obtain rfl := Except.error.inj hresult
      rfl
  have htable := PrecedenceTable.standard_sparesPunctuation
  obtain ⟨c, hc, hfront, hnone, -⟩ := fault_at_first_offending_token htable hfault (by decide)
  obtain rfl := List.append_cancel_right hc
  exact ⟨htable, hfault, hfront, hnone⟩

end Formulary

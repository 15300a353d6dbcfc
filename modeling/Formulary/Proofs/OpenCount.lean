import Formulary.Proofs.Phrases
import Formulary.Proofs.Resynchronisation

/-!
# Counting the expressions that are open

The limit on nesting can be kept by one counter that goes along with the tokens. It is raised when
an expression is opened and lowered when the expression is left, be it read or at fault, and at the
limit no expression is opened. Reading with the counter is reading with as many levels as the
counter leaves, and every reader leaves the counter as it found it. So between two constructs no
expression counts as open, whatever the constructs before were.

* `Counted`, `CountedReader`: outcomes and readers with a counter.
* `countExpression`, `countConstruct`: expressions and constructs with a counter.
* `CountedReader.Tracks`: the counter changes nothing and comes back.
* `countExpression_tracks`, `countConstruct_eq`: this holds of expressions and of constructs.
-/

namespace Formulary

variable {α β : Type}

/-! ## Outcomes with a counter -/

/-- The outcome of reading, and how many expressions count as open then. -/
structure Counted (α : Type) where
  parsed : Parsed α
  opened : Nat

namespace Counted

/-- Goes on reading behind a phrase, unless there was a fault. -/
def bind (p : Counted α) (next : α → Nat → List Token → Counted β) : Counted β :=
  match p.parsed.result with
  | .ok a => next a p.opened p.parsed.rest
  | .error e => ⟨.fail e p.parsed.rest, p.opened⟩

/-- Applies a function to the meaning of a phrase. -/
def map (f : α → β) (p : Counted α) : Counted β := ⟨p.parsed.map f, p.opened⟩

theorem bind_suffix {p : Counted α} {next : α → Nat → List Token → Counted β} {tokens : List Token}
    (hp : p.parsed.rest <:+ tokens)
    (hnext : ∀ a n rest, rest <:+ tokens → (next a n rest).parsed.rest <:+ tokens) :
    (p.bind next).parsed.rest <:+ tokens := by
  unfold bind
  split
  · exact hnext _ _ _ hp
  · exact hp

/-- Two readings in a row leave the counter as it was if both do. -/
theorem bind_mk {p : Parsed α} {n : Nat} {next : α → Nat → List Token → Counted β}
    {next' : α → List Token → Parsed β}
    (h : ∀ a rest, p = .ok a rest → next a n rest = ⟨next' a rest, n⟩) :
    (Counted.mk p n).bind next = ⟨p.bind next', n⟩ := by
  obtain ⟨result, rest⟩ := p
  cases result with
  | ok a => exact h a rest rfl
  | error e => rfl

end Counted

/-- A reading function with a counter that only takes tokens from the front. -/
structure CountedReader (α : Type) where
  read : Nat → List Token → Counted α
  suffix : ∀ n tokens, (read n tokens).parsed.rest <:+ tokens

/-- With `n` expressions open the reader reads as `r` does, and as many are open afterwards. -/
def CountedReader.Tracks (c : CountedReader α) (n : Nat) (r : Reader α) : Prop :=
  ∀ tokens, c.read n tokens = ⟨r.read tokens, n⟩

/-! ## Readers with a counter -/

section Readers

variable (table : PrecedenceTable) (inner : CountedReader Expr)

/-- Reads arguments up to the closing parenthesis. -/
def countArguments (done : List Expr) (n : Nat) (tokens : List Token) : Counted (List Expr) :=
  let p := inner.read n tokens
  match p.parsed.result with
  | .error e => ⟨.fail e p.parsed.rest, p.opened⟩
  | .ok arg =>
    match _h : p.parsed.rest with
    | .symbol ')' :: rest => ⟨.ok (arg :: done).reverse rest, p.opened⟩
    | .symbol ',' :: rest => countArguments (arg :: done) p.opened rest
    | rest => ⟨.fail (faultAt .expectedArgumentSeparator rest) rest, p.opened⟩
termination_by tokens.length
decreasing_by
  have hle := (inner.suffix n tokens).length_le
  rw [_h] at hle
  exact hle

/-- Reads a call behind its opening parenthesis. -/
def countCall (callee : String) (n : Nat) : List Token → Counted Expr
  | .symbol ')' :: rest => ⟨.ok (.call callee []) rest, n⟩
  | .malformed text :: rest => ⟨.fail (.malformedNumber text) (.malformed text :: rest), n⟩
  | tokens => (countArguments inner [] n tokens).map (.call callee)

/-- Reads what follows an identifier. -/
def countReference (name : String) (n : Nat) : List Token → Counted Expr
  | .symbol '(' :: rest => countCall inner name n rest
  | .malformed text :: rest => ⟨.fail (.malformedNumber text) (.malformed text :: rest), n⟩
  | rest => ⟨.ok (.var name) rest, n⟩

/-- Reads a primary. -/
def countPrimary (n : Nat) : List Token → Counted Expr
  | .identifier name :: rest => countReference inner name n rest
  | .number x :: rest => ⟨.ok (.number x) rest, n⟩
  | .symbol '(' :: rest => (inner.read n rest).bind fun e n rest => ⟨readClosing e rest, n⟩
  | tokens => ⟨.fail (faultAt .expectedExpression tokens) tokens, n⟩

theorem countArguments_suffix (done : List Expr) (n : Nat) (tokens : List Token) :
    (countArguments inner done n tokens).parsed.rest <:+ tokens := by
  fun_induction countArguments inner done n tokens with
  | case1 done n tokens p e he => exact inner.suffix n tokens
  | case2 done n tokens p arg harg rest hrest =>
    exact (List.suffix_cons _ _).trans (hrest ▸ inner.suffix n tokens)
  | case3 done n tokens p arg harg rest hrest ih =>
    exact (ih.trans (List.suffix_cons _ _)).trans (hrest ▸ inner.suffix n tokens)
  | case4 done n tokens p arg harg => exact inner.suffix n tokens

theorem countPrimary_suffix (n : Nat) (tokens : List Token) :
    (countPrimary inner n tokens).parsed.rest <:+ tokens := by
  unfold countPrimary
  split
  · refine List.IsSuffix.trans ?_ (List.suffix_cons _ _)
    unfold countReference
    split
    · refine List.IsSuffix.trans ?_ (List.suffix_cons _ _)
      unfold countCall
      split
      · exact List.suffix_cons _ _
      · exact List.suffix_rfl
      · show (Parsed.map _ _).rest <:+ _
        rw [Parsed.rest_map]
        exact countArguments_suffix inner [] n _
    · exact List.suffix_rfl
    · exact List.suffix_rfl
  · exact List.suffix_cons _ _
  · refine List.IsSuffix.trans ?_ (List.suffix_cons _ _)
    exact Counted.bind_suffix (inner.suffix _ _) fun e n rest h =>
      (readClosing_suffix e rest).trans h
  · exact List.suffix_rfl

/-- Reads links for as long as an operator of the table stands in front. -/
def countLinks (done : List Link) (n : Nat) (tokens : List Token) : Counted (List Link) :=
  match tokens with
  | .symbol op :: rest =>
    match table.get? op with
    | none => ⟨.ok done.reverse (.symbol op :: rest), n⟩
    | some precedence =>
      let p := countPrimary inner n rest
      match p.parsed.result with
      | .error e => ⟨.fail e p.parsed.rest, p.opened⟩
      | .ok rhs => countLinks (⟨op, precedence, rhs⟩ :: done) p.opened p.parsed.rest
  | tokens => ⟨.ok done.reverse tokens, n⟩
termination_by tokens.length
decreasing_by exact Nat.lt_succ_of_le (countPrimary_suffix inner n rest).length_le

/-- Reads a chain and groups it. -/
def countChain (n : Nat) (tokens : List Token) : Counted Expr :=
  (countPrimary inner n tokens).bind fun first n rest =>
    (countLinks table inner [] n rest).map (groupChain first)

theorem countLinks_suffix (done : List Link) (n : Nat) (tokens : List Token) :
    (countLinks table inner done n tokens).parsed.rest <:+ tokens := by
  fun_induction countLinks table inner done n tokens with
  | case1 => exact List.suffix_rfl
  | case2 done n op rest precedence hop p e he =>
    exact (countPrimary_suffix inner n rest).trans (List.suffix_cons _ _)
  | case3 done n op rest precedence hop p rhs hrhs ih =>
    exact (ih.trans (countPrimary_suffix inner n rest)).trans (List.suffix_cons _ _)
  | case4 => exact List.suffix_rfl

theorem countChain_suffix (n : Nat) (tokens : List Token) :
    (countChain table inner n tokens).parsed.rest <:+ tokens := by
  refine Counted.bind_suffix (countPrimary_suffix inner n tokens) fun first n rest h => ?_
  show (Parsed.map _ _).rest <:+ _
  rw [Parsed.rest_map]
  exact (countLinks_suffix table inner [] n rest).trans h

/-- Reads an expression. It is opened unless the limit is reached, and closed whatever became of
    it. -/
def countOpened (n : Nat) (tokens : List Token) : Counted Expr :=
  if n = nestingLimit then ⟨.fail (.nestingTooDeep nestingLimit) tokens, n⟩
  else
    let p := countChain table inner (n + 1) tokens
    ⟨p.parsed, p.opened - 1⟩

theorem countOpened_suffix (n : Nat) (tokens : List Token) :
    (countOpened table inner n tokens).parsed.rest <:+ tokens := by
  unfold countOpened
  split
  · exact List.suffix_rfl
  · exact countChain_suffix table inner (n + 1) tokens

end Readers

/-- The reader of expressions with a counter. It is called from within itself once for each
    expression that is open, so that the limit bounds the `rounds` that are needed. -/
def countExpression (table : PrecedenceTable) : (rounds : Nat) → CountedReader Expr
  | 0 =>
    ⟨fun n tokens => ⟨.fail (.nestingTooDeep nestingLimit) tokens, n⟩, fun _ _ => List.suffix_rfl⟩
  | rounds + 1 =>
    ⟨countOpened table (countExpression table rounds), countOpened_suffix table _⟩

/-- Reads the next construct with a counter. -/
def countConstruct (table : PrecedenceTable) (n : Nat) : List Token → Counted Construct
  | [] => ⟨.ok .endOfInput [], n⟩
  | .symbol ';' :: rest => ⟨.ok .separator rest, n⟩
  | .define :: rest =>
    (Counted.mk (readPrototype rest) n).bind fun proto n rest =>
      ((countExpression table (nestingLimit + 1)).read n rest).map fun body =>
        .definition ⟨proto, body⟩
  | .declare :: rest => ⟨(readPrototype rest).map .declaration, n⟩
  | tokens => ((countExpression table (nestingLimit + 1)).read n tokens).map fun body =>
      .expression (.ofExpr body)

/-! ## The counter comes back -/

section Tracks

variable {table : PrecedenceTable} {inner : CountedReader Expr} {n : Nat} {r : Reader Expr}

theorem countArguments_eq_bind (inner : CountedReader Expr) (done : List Expr) (n : Nat)
    (tokens : List Token) :
    countArguments inner done n tokens = (inner.read n tokens).bind fun arg n rest =>
      match rest with
      | .symbol ')' :: rest => ⟨.ok (arg :: done).reverse rest, n⟩
      | .symbol ',' :: rest => countArguments inner (arg :: done) n rest
      | rest => ⟨.fail (faultAt .expectedArgumentSeparator rest) rest, n⟩ := by
  rw [countArguments, Counted.bind]
  split
  · next e he => simp only [he]
  · next arg harg =>
    simp only [harg]
    split
    · next rest hrest => simp only [hrest]
    · next rest hrest => simp only [hrest]
    · next hclose hcomma =>
      split
      · next rest hrest => exact (hclose rest hrest).elim
      · next rest hrest => exact (hcomma rest hrest).elim
      · rfl

theorem countArguments_eq (h : inner.Tracks n r) (done : List Expr) (tokens : List Token) :
    countArguments inner done n tokens = ⟨readArguments r done tokens, n⟩ := by
  fun_induction readArguments r done tokens with
  | case1 done tokens parsed e he =>
    have hread : r.read tokens = .fail e parsed.rest := congrArg₂ Parsed.mk he rfl
    rw [countArguments_eq_bind, h tokens, hread]
    rfl
  | case2 done tokens parsed arg harg rest hrest =>
    have hread : r.read tokens = .ok arg (.symbol ')' :: rest) := congrArg₂ Parsed.mk harg hrest
    rw [countArguments_eq_bind, h tokens, hread]
    rfl
  | case3 done tokens parsed arg harg rest hrest ih =>
    have hread : r.read tokens = .ok arg (.symbol ',' :: rest) := congrArg₂ Parsed.mk harg hrest
    rw [countArguments_eq_bind, h tokens, hread]
    exact ih
  | case4 done tokens parsed arg harg hclose hcomma =>
    have hread : r.read tokens = .ok arg parsed.rest := congrArg₂ Parsed.mk harg rfl
    rw [countArguments_eq_bind, h tokens, hread]
    -- neither symbol is in front, which leaves the last case
    simp only [Counted.bind, Parsed.ok]

theorem countCall_eq (h : inner.Tracks n r) (callee : String) (tokens : List Token) :
    countCall inner callee n tokens = ⟨readCall r callee tokens, n⟩ := by
  fun_cases readCall r callee tokens with
  | case1 rest => rfl
  | case2 text rest => rfl
  | case3 tokens hclose hmalformed =>
    rw [countCall.eq_3 _ _ _ _ hclose hmalformed, countArguments_eq h]
    rfl

theorem countReference_eq (h : inner.Tracks n r) (name : String) (tokens : List Token) :
    countReference inner name n tokens = ⟨readReference r name tokens, n⟩ := by
  fun_cases readReference r name tokens with
  | case1 rest => exact countCall_eq h name rest
  | case2 text rest => rfl
  | case3 tokens hopen hmalformed => exact countReference.eq_3 _ _ _ _ hopen hmalformed

theorem countPrimary_eq (h : inner.Tracks n r) (tokens : List Token) :
    countPrimary inner n tokens = ⟨readPrimary r tokens, n⟩ := by
  fun_cases readPrimary r tokens with
  | case1 name rest => exact countReference_eq h name rest
  | case2 x rest => rfl
  | case3 rest =>
    rw [countPrimary, h rest]
    exact Counted.bind_mk fun e rest _ => rfl
  | case4 tokens hname hnumber hopen => exact countPrimary.eq_4 _ _ _ hname hnumber hopen

theorem countLinks_eq_bind {op : Char} {precedence : Int32} (inner : CountedReader Expr)
    (hop : table.get? op = some precedence) (done : List Link) (n : Nat) (rest : List Token) :
    countLinks table inner done n (.symbol op :: rest) =
      (countPrimary inner n rest).bind fun rhs n rest =>
        countLinks table inner (⟨op, precedence, rhs⟩ :: done) n rest := by
  rw [countLinks, Counted.bind]
  simp only [hop]
  split <;> simp only [*]

theorem countLinks_eq (h : inner.Tracks n r) (done : List Link) (tokens : List Token) :
    countLinks table inner done n tokens = ⟨readLinks table (primary r) done tokens, n⟩ := by
  fun_induction readLinks table (primary r) done tokens with
  | case1 done op rest hop =>
    rw [countLinks]
    simp only [hop]
  | case2 done op rest precedence hop parsed e he =>
    have hread : readPrimary r rest = .fail e parsed.rest := congrArg₂ Parsed.mk he rfl
    rw [countLinks_eq_bind inner hop, countPrimary_eq h, hread]
    rfl
  | case3 done op rest precedence hop parsed rhs hrhs ih =>
    have hread : readPrimary r rest = .ok rhs parsed.rest := congrArg₂ Parsed.mk hrhs rfl
    rw [countLinks_eq_bind inner hop, countPrimary_eq h, hread]
    exact ih
  | case4 done tokens hsymbol => rw [countLinks.eq_2 _ _ _ _ _ hsymbol]

theorem countChain_eq (h : inner.Tracks n r) (tokens : List Token) :
    countChain table inner n tokens = ⟨readChain table (primary r) tokens, n⟩ := by
  rw [countChain, countPrimary_eq h]
  refine Counted.bind_mk fun first rest _ => ?_
  rw [countLinks_eq h]
  rfl

end Tracks

/-- With `n` expressions open, the expressions that are read are those with as many levels as are
    left up to the limit. -/
theorem countExpression_tracks (table : PrecedenceTable) {rounds n : Nat} (hn : n ≤ nestingLimit)
    (hrounds : nestingLimit < n + rounds) :
    (countExpression table rounds).Tracks n (expression table (nestingLimit - n)) := by
  induction rounds generalizing n with
  | zero => omega
  | succ rounds ih =>
    intro tokens
    show countOpened table (countExpression table rounds) n tokens = _
    unfold countOpened
    split
    · next hfull =>
      rw [hfull, Nat.sub_self]
      rfl
    · next hfree =>
      have hlevels : nestingLimit - n = nestingLimit - (n + 1) + 1 := by omega
      -- What is inside is read with one more expression open.
      rw [countChain_eq (ih (n := n + 1) (by omega) (by omega)), hlevels]
      rfl

/-- Constructs are read as they are without a counter, and behind each no expression is open. -/
theorem countConstruct_eq (table : PrecedenceTable) (tokens : List Token) :
    countConstruct table 0 tokens = ⟨readConstruct table tokens, 0⟩ := by
  have htracks : (countExpression table (nestingLimit + 1)).Tracks 0
      (expression table nestingLimit) :=
    countExpression_tracks table (Nat.zero_le _) (by omega)
  fun_cases readConstruct table tokens with
  | case1 => rfl
  | case2 rest => rfl
  | case3 rest =>
    rw [countConstruct]
    refine Counted.bind_mk fun proto rest _ => ?_
    rw [htracks rest]
    rfl
  | case4 rest => rfl
  | case5 tokens hnil hseparator hdefine hdeclare =>
    rw [countConstruct.eq_5 _ _ _ hnil hseparator hdefine hdeclare, htracks tokens]
    rfl

end Formulary

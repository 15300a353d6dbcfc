import Formulary.Proofs.OpenCount

/-!
# The limit on nesting changes nothing below it

Expressions can be read without a limit on nesting: an expression inside another has fewer tokens
in front of it, so that as many levels as there are tokens are never used up. Reading without a
limit opens expressions one after the other, each at a depth and with some tokens left. Reading
with the limit goes the same way up to the first expression that is opened too deep and is refused
there; if there is none, it goes the whole way.

* `boundless`: expressions without a limit, with the equation `boundless_read`.
* `openings`, `constructOpenings`: the expressions that are opened in the course of reading.
* `Parsed.cutAt`: a reading that is cut short where an expression is opened too deep, with one
  lemma for each reader.
* `expression_eq_cutAt`, `readConstruct_eq_cutAt`: the limit cuts a reading short and does nothing
  else.
* `nesting_limit_transparent`: what this says of constructs.
-/

namespace Formulary

variable {α β : Type}

/-! ## Expressions that a reader opens -/

/-- The tokens behind a wanted symbol in front. -/
def behind? (wanted : Char → Bool) : List Token → Option (List Token)
  | .symbol c :: rest => if wanted c then some rest else none
  | _ => none

theorem behind?_eq_none {wanted : Char → Bool} {tokens : List Token}
    (h : ∀ c rest, tokens = .symbol c :: rest → wanted c = false) :
    behind? wanted tokens = none := by
  unfold behind?
  split
  · next c rest => simp [h c rest rfl]
  · rfl

theorem length_lt_of_behind? {wanted : Char → Bool} {tokens rest : List Token}
    (h : behind? wanted tokens = some rest) : rest.length < tokens.length := by
  unfold behind? at h
  split at h
  · split at h
    · obtain rfl := Option.some.inj h
      exact Nat.lt_succ_self _
    · exact absurd h (by simp)
  · exact absurd h (by simp)

/-- The tokens at which a reader is called when phrases stand in a row with a wanted symbol between
    them: at the first one and, for as long as a phrase was read and such a symbol is behind it, at
    the next one. -/
def Reader.calls (r : Reader α) (wanted : Char → Bool) (tokens : List Token) :
    List (List Token) :=
  match (r.read tokens).result with
  | .error _ => [tokens]
  | .ok _ =>
    match _h : behind? wanted (r.read tokens).rest with
    | none => [tokens]
    | some rest => tokens :: r.calls wanted rest
termination_by tokens.length
decreasing_by exact Nat.lt_of_lt_of_le (length_lt_of_behind? _h) (r.suffix tokens).length_le

/-- The tokens at which a call opens its arguments. -/
def argumentCalls (inner : Reader Expr) : List Token → List (List Token)
  | .symbol ')' :: _ => []
  | .malformed _ :: _ => []
  | tokens => inner.calls (· = ',') tokens

/-- The tokens at which a primary opens expressions. -/
def primaryCalls (inner : Reader Expr) : List Token → List (List Token)
  | .identifier _ :: .symbol '(' :: rest => argumentCalls inner rest
  | .symbol '(' :: rest => [rest]
  | _ => []

/-- The character is an operator of the table. -/
def PrecedenceTable.hasOperator (table : PrecedenceTable) (op : Char) : Bool :=
  (table.get? op).isSome

/-- The tokens at which a chain of primaries opens expressions. -/
def innerCalls (table : PrecedenceTable) (inner : Reader Expr) (tokens : List Token) :
    List (List Token) :=
  ((primary inner).calls table.hasOperator tokens).flatMap (primaryCalls inner)

/-- The calls behind a first phrase. -/
def Reader.callsBehind (r : Reader α) (wanted : Char → Bool) (p : Parsed α) :
    List (List Token) :=
  match p.result with
  | .error _ => []
  | .ok _ => (behind? wanted p.rest).elim [] (r.calls wanted)

theorem Reader.calls_eq (r : Reader α) (wanted : Char → Bool) (tokens : List Token) :
    r.calls wanted tokens = tokens :: r.callsBehind wanted (r.read tokens) := by
  rw [Reader.calls, Reader.callsBehind]
  split
  · rfl
  · split
    · next hbehind => rw [hbehind]; rfl
    · next hbehind => rw [hbehind]; rfl

theorem Reader.length_le_of_mem_calls {r : Reader α} {wanted : Char → Bool}
    {tokens t : List Token} (h : t ∈ r.calls wanted tokens) : t.length ≤ tokens.length := by
  fun_induction Reader.calls r wanted tokens with
  | case1 tokens e he => exact Nat.le_of_eq (congrArg _ (List.mem_singleton.mp h))
  | case2 tokens a ha hbehind => exact Nat.le_of_eq (congrArg _ (List.mem_singleton.mp h))
  | case3 tokens a ha rest hbehind ih =>
    rcases List.mem_cons.mp h with rfl | h
    · exact Nat.le_refl _
    · have hlt := length_lt_of_behind? hbehind
      have hle := (r.suffix tokens).length_le
      have := ih h
      omega

theorem length_lt_of_mem_primaryCalls {inner : Reader Expr} {tokens t : List Token}
    (h : t ∈ primaryCalls inner tokens) : t.length < tokens.length := by
  unfold primaryCalls at h
  split at h
  · unfold argumentCalls at h
    split at h
    · exact absurd h List.not_mem_nil
    · exact absurd h List.not_mem_nil
    · have := Reader.length_le_of_mem_calls h
      simp only [List.length_cons]
      omega
  · rw [List.mem_singleton.mp h]
    exact Nat.lt_succ_self _
  · exact absurd h List.not_mem_nil

/-- An expression inside a chain has fewer tokens in front of it than the chain. -/
theorem length_lt_of_mem_innerCalls {table : PrecedenceTable} {inner : Reader Expr}
    {tokens t : List Token} (h : t ∈ innerCalls table inner tokens) :
    t.length < tokens.length := by
  obtain ⟨s, hs, ht⟩ := List.mem_flatMap.mp h
  exact Nat.lt_of_lt_of_le (length_lt_of_mem_primaryCalls ht) (Reader.length_le_of_mem_calls hs)

/-! ## Readings that are cut short -/

/-- An expression that is opened: how many are open then, itself included, and the tokens that are
    left. -/
structure Opening where
  depth : Nat
  left : List Token

/-- A reading that is cut short where an expression is opened too deep, if there is one. -/
def Parsed.cutAt (p : Parsed α) : Option Opening → Parsed α
  | none => p
  | some o => .fail (.nestingTooDeep nestingLimit) o.left

@[simp] theorem Parsed.cutAt_none (p : Parsed α) : p.cutAt none = p := rfl

@[simp] theorem Parsed.cutAt_some (p : Parsed α) (o : Opening) :
    p.cutAt (some o) = .fail (.nestingTooDeep nestingLimit) o.left := rfl

theorem Parsed.cutAt_bind (p : Parsed α) (next : α → List Token → Parsed β)
    (deep : Option Opening) : (p.cutAt deep).bind next = (p.bind next).cutAt deep := by
  cases deep <;> rfl

theorem Parsed.cutAt_map (p : Parsed α) (f : α → β) (deep : Option Opening) :
    (p.cutAt deep).map f = (p.map f).cutAt deep :=
  p.cutAt_bind _ deep

theorem findSome?_flatMap {γ : Type} (f : α → List β) (g : β → Option γ) (l : List α) :
    (l.flatMap f).findSome? g = l.findSome? fun a => (f a).findSome? g := by
  simp only [← List.head?_filterMap, List.filterMap_flatMap, List.head?_flatMap]

/-- A reader that is cut short wherever it is called. -/
def Reader.CutAt (r' r : Reader α) (deep? : List Token → Option Opening)
    (calls : List (List Token)) : Prop :=
  ∀ t ∈ calls, r'.read t = (r.read t).cutAt (deep? t)

/-- Phrases in a row are cut short in the first one or else behind it. -/
theorem Reader.CutAt.bind {r r' : Reader α} {deep? : List Token → Option Opening}
    {wanted : Char → Bool} {tokens : List Token} (h : r'.CutAt r deep? (r.calls wanted tokens))
    {next next' : α → List Token → Parsed β}
    (hnext : ∀ a rest, r.read tokens = .ok a rest →
      r'.CutAt r deep? (r.callsBehind wanted (.ok a rest)) →
      next' a rest =
        (next a rest).cutAt ((r.callsBehind wanted (.ok a rest)).findSome? deep?)) :
    (r'.read tokens).bind next' =
      ((r.read tokens).bind next).cutAt ((r.calls wanted tokens).findSome? deep?) := by
  rw [Reader.calls_eq] at h ⊢
  rw [h tokens List.mem_cons_self, List.findSome?_cons]
  cases deep? tokens with
  | some o => rfl
  | none =>
    have htail : r'.CutAt r deep? (r.callsBehind wanted (r.read tokens)) :=
      fun t ht => h t (List.mem_cons_of_mem _ ht)
    rcases hread : r.read tokens with ⟨result, rest⟩
    rw [hread] at htail
    cases result with
    | error e => rfl
    | ok a => exact hnext a rest hread htail

section Cut

variable {table : PrecedenceTable} {inner inner' : Reader Expr}
  {deep? : List Token → Option Opening}

theorem readArguments_cutAt {tokens : List Token}
    (h : inner'.CutAt inner deep? (inner.calls (· = ',') tokens)) (done : List Expr) :
    readArguments inner' done tokens =
      (readArguments inner done tokens).cutAt
        ((inner.calls (· = ',') tokens).findSome? deep?) := by
  induction hn : tokens.length using Nat.strongRecOn generalizing done tokens with
  | ind n ih =>
    rw [readArguments_eq_bind, readArguments_eq_bind]
    refine h.bind fun arg rest hread htail => ?_
    split
    · rfl
    · next rest =>
      have hlt : rest.length < n := hn ▸ inner.length_lt_of_rest (congrArg Parsed.rest hread)
      exact ih _ hlt htail _ rfl
    · next hclose hcomma =>
      have hbehind : behind? (· = ',') rest = none := by
        refine behind?_eq_none fun c rest hrest => decide_eq_false fun hc => hcomma rest ?_
        rw [hrest, hc]
      simp [Parsed.ok, Reader.callsBehind, hbehind]

theorem readLinks_cutAt {operand operand' : Reader Expr} {tokens : List Token} {e : Expr}
    (h : operand'.CutAt operand deep? (operand.callsBehind table.hasOperator (.ok e tokens)))
    (done : List Link) :
    readLinks table operand' done tokens =
      (readLinks table operand done tokens).cutAt
        ((operand.callsBehind table.hasOperator (.ok e tokens)).findSome? deep?) := by
  induction hn : tokens.length using Nat.strongRecOn generalizing done tokens e with
  | ind n ih =>
    rcases notOperator_or_operator table tokens with hop | ⟨op, rest, precedence, rfl, hop⟩
    · rw [readLinks_of_notOperator operand done hop, readLinks_of_notOperator operand' done hop]
      have hbehind : behind? table.hasOperator tokens = none :=
        behind?_eq_none fun op rest htokens => by
          rw [PrecedenceTable.hasOperator, hop op rest htokens, Option.isSome_none]
      simp [Parsed.ok, Reader.callsBehind, hbehind]
    · have hcalls : operand.callsBehind table.hasOperator (.ok e (.symbol op :: rest)) =
          operand.calls table.hasOperator rest := by
        simp [Parsed.ok, Reader.callsBehind, behind?, PrecedenceTable.hasOperator, hop]
      rw [hcalls] at h ⊢
      rw [readLinks_eq_bind hop, readLinks_eq_bind hop]
      refine h.bind fun rhs rest hread htail => ?_
      have hlt : rest.length < n := hn ▸ Nat.lt_succ_of_le (operand.length_le_of_read hread)
      exact ih _ hlt htail _ rfl

theorem readCall_cutAt {tokens : List Token}
    (h : inner'.CutAt inner deep? (argumentCalls inner tokens)) (callee : String) :
    readCall inner' callee tokens =
      (readCall inner callee tokens).cutAt ((argumentCalls inner tokens).findSome? deep?) := by
  fun_cases readCall inner callee tokens with
  | case1 rest => rfl
  | case2 text rest => rfl
  | case3 tokens hclose hmalformed =>
    rw [argumentCalls.eq_3 _ _ hclose hmalformed] at h ⊢
    rw [readCall.eq_3 _ _ _ hclose hmalformed, readArguments_cutAt h, Parsed.cutAt_map]

theorem readPrimary_cutAt {tokens : List Token}
    (h : inner'.CutAt inner deep? (primaryCalls inner tokens)) :
    readPrimary inner' tokens =
      (readPrimary inner tokens).cutAt ((primaryCalls inner tokens).findSome? deep?) := by
  fun_cases readPrimary inner tokens with
  | case1 name rest =>
    rw [readPrimary]
    fun_cases readReference inner name rest with
    | case1 rest => exact readCall_cutAt h name
    | case2 text rest => rfl
    | case3 _ hopen hmalformed =>
      have hcalls : primaryCalls inner (.identifier name :: rest) = [] :=
        primaryCalls.eq_3 _ _ (fun _ tail heq => hopen tail (List.cons.inj heq).2) (by simp)
      rw [hcalls, readReference.eq_3 _ _ _ hopen hmalformed]
      rfl
  | case2 x rest => rfl
  | case3 rest =>
    rw [readPrimary, h rest List.mem_cons_self, primaryCalls, List.findSome?_singleton,
      Parsed.cutAt_bind]
  | case4 tokens hname hnumber hopen =>
    have hcalls : primaryCalls inner tokens = [] :=
      primaryCalls.eq_3 _ _ (fun name rest => hname name _) hopen
    rw [hcalls, readPrimary.eq_4 _ _ hname hnumber hopen]
    rfl

/-- Chains over a reader that is cut short are cut short where the reader first is. -/
theorem chain_cutAt {tokens : List Token}
    (h : inner'.CutAt inner deep? (innerCalls table inner tokens)) :
    (chain table (primary inner')).read tokens =
      ((chain table (primary inner)).read tokens).cutAt
        ((innerCalls table inner tokens).findSome? deep?) := by
  have hprimary : (primary inner').CutAt (primary inner)
      (fun t => (primaryCalls inner t).findSome? deep?)
      ((primary inner).calls table.hasOperator tokens) :=
    fun t ht => readPrimary_cutAt fun s hs => h s (List.mem_flatMap_of_mem ht hs)
  show readChain table (primary inner') tokens = (readChain table (primary inner) tokens).cutAt _
  rw [innerCalls, findSome?_flatMap, readChain, readChain]
  refine hprimary.bind fun first rest _ htail => ?_
  rw [readLinks_cutAt htail, Parsed.cutAt_map]

/-- Readers that agree on the expressions inside a chain give the same chain. -/
theorem chain_congr {tokens : List Token}
    (h : ∀ t ∈ innerCalls table inner tokens, inner'.read t = inner.read t) :
    (chain table (primary inner')).read tokens = (chain table (primary inner)).read tokens := by
  have hcut : inner'.CutAt inner (fun _ => none) (innerCalls table inner tokens) := h
  rw [chain_cutAt hcut, List.findSome?_eq_none_iff.mpr fun _ _ => rfl, Parsed.cutAt_none]

end Cut

/-! ## Reading without a limit -/

/-- Once there are more levels than tokens, it does not matter how many. -/
theorem expression_read_congr (table : PrecedenceTable) {n m : Nat} {tokens : List Token}
    (hn : tokens.length < n) (hm : tokens.length < m) :
    (expression table n).read tokens = (expression table m).read tokens := by
  induction hk : tokens.length using Nat.strongRecOn generalizing n m tokens with
  | ind k ih =>
    obtain ⟨n, rfl⟩ : ∃ i, n = i + 1 := ⟨n - 1, by omega⟩
    obtain ⟨m, rfl⟩ : ∃ i, m = i + 1 := ⟨m - 1, by omega⟩
    refine chain_congr fun t ht => ?_
    have hlt := length_lt_of_mem_innerCalls ht
    exact ih t.length (by omega) (by omega) (by omega) rfl

/-- The reader of expressions that may open any number of levels. -/
def boundless (table : PrecedenceTable) : Reader Expr :=
  ⟨fun tokens => (expression table (tokens.length + 1)).read tokens,
    fun tokens => (expression table (tokens.length + 1)).suffix tokens⟩

/-- Without a limit an expression is a chain of primaries that hold such expressions. -/
theorem boundless_read (table : PrecedenceTable) (tokens : List Token) :
    (boundless table).read tokens = (chain table (primary (boundless table))).read tokens := by
  refine (chain_congr fun t ht => ?_).symm
  exact expression_read_congr table (Nat.lt_succ_self _) (length_lt_of_mem_innerCalls ht)

/-! ## The expressions that are opened -/

/-- The expressions that are opened when an expression is read without a limit, in order: it comes
    first, at the given depth, and then come those inside it, one level deeper. -/
def openings (table : PrecedenceTable) (depth : Nat) (tokens : List Token) : List Opening :=
  ⟨depth, tokens⟩ ::
    (innerCalls table (boundless table) tokens).attach.flatMap fun ⟨t, _⟩ =>
      openings table (depth + 1) t
termination_by tokens.length
decreasing_by exact length_lt_of_mem_innerCalls ‹_›

theorem openings_eq (table : PrecedenceTable) (depth : Nat) (tokens : List Token) :
    openings table depth tokens =
      ⟨depth, tokens⟩ ::
        (innerCalls table (boundless table) tokens).flatMap (openings table (depth + 1)) := by
  rw [openings]
  simp

/-- What is opened behind an opening parenthesis is opened one level deeper. -/
theorem mem_openings_of_parenthesis {table : PrecedenceTable} {depth : Nat} {rest : List Token}
    {o : Opening} (h : o ∈ openings table (depth + 1) rest) :
    o ∈ openings table depth (.symbol '(' :: rest) := by
  have hcall : rest ∈ innerCalls table (boundless table) (.symbol '(' :: rest) := by
    rw [innerCalls, Reader.calls_eq, List.flatMap_cons]
    exact List.mem_append_left _ List.mem_cons_self
  rw [openings_eq]
  exact List.mem_cons_of_mem _ (List.mem_flatMap_of_mem hcall h)

theorem mem_openings_of_parentheses (table : PrecedenceTable) (depth n : Nat) (rest : List Token) :
    ⟨depth + n, rest⟩ ∈ openings table depth (List.replicate n (.symbol '(') ++ rest) := by
  induction n generalizing depth with
  | zero =>
    rw [openings_eq]
    exact List.mem_cons_self
  | succ n ih =>
    have hinner := ih (depth + 1)
    rw [Nat.add_right_comm] at hinner
    exact mem_openings_of_parenthesis hinner

/-- The first expression that is opened too deep. -/
def firstTooDeep (opened : List Opening) : Option Opening :=
  opened.find? fun o => nestingLimit < o.depth

theorem firstTooDeep_openings_of_le (table : PrecedenceTable) {depth : Nat} (tokens : List Token)
    (h : depth ≤ nestingLimit) :
    firstTooDeep (openings table depth tokens) =
      (innerCalls table (boundless table) tokens).findSome? fun t =>
        firstTooDeep (openings table (depth + 1) t) := by
  rw [openings_eq, firstTooDeep, List.find?_cons_of_neg (by simpa using h), List.find?_flatMap]
  rfl

theorem firstTooDeep_openings_of_lt (table : PrecedenceTable) {depth : Nat} (tokens : List Token)
    (h : nestingLimit < depth) :
    firstTooDeep (openings table depth tokens) = some ⟨depth, tokens⟩ := by
  rw [openings_eq, firstTooDeep, List.find?_cons_of_pos (by simpa using h)]

/-- Reading with as many levels as are left at a depth is reading without a limit, cut short where
    an expression is first opened too deep. -/
theorem expression_eq_cutAt (table : PrecedenceTable) {levels depth : Nat} (tokens : List Token)
    (h : depth + levels = nestingLimit + 1) :
    (expression table levels).read tokens =
      ((boundless table).read tokens).cutAt (firstTooDeep (openings table depth tokens)) := by
  induction levels generalizing depth tokens with
  | zero =>
    rw [firstTooDeep_openings_of_lt table tokens (by omega)]
    rfl
  | succ levels ih =>
    rw [firstTooDeep_openings_of_le table tokens (by omega), boundless_read]
    exact chain_cutAt fun t _ => ih t (by omega)

/-- Depths grow by one level at a time: the first expression that is opened too deep is one level
    too deep. -/
theorem depth_of_firstTooDeep {table : PrecedenceTable} {levels depth : Nat} {tokens : List Token}
    {o : Opening} (h : depth + levels = nestingLimit + 1)
    (ho : firstTooDeep (openings table depth tokens) = some o) : o.depth = nestingLimit + 1 := by
  induction levels generalizing depth tokens with
  | zero =>
    rw [firstTooDeep_openings_of_lt table tokens (by omega)] at ho
    rw [← Option.some.inj ho]
    exact h
  | succ levels ih =>
    rw [firstTooDeep_openings_of_le table tokens (by omega)] at ho
    obtain ⟨t, -, ht⟩ := List.exists_of_findSome?_eq_some ho
    exact ih (by omega) ht

/-! ## Constructs -/

/-- Reads the next construct with a given reader of expressions. -/
def constructWith (expr : Reader Expr) : List Token → Parsed Construct
  | [] => .ok .endOfInput []
  | .symbol ';' :: rest => .ok .separator rest
  | .define :: rest =>
    (readPrototype rest).bind fun proto rest =>
      (expr.read rest).map fun body => .definition ⟨proto, body⟩
  | .declare :: rest => (readPrototype rest).map .declaration
  | tokens => (expr.read tokens).map fun body => .expression (.ofExpr body)

theorem readConstruct_eq_constructWith (table : PrecedenceTable) (tokens : List Token) :
    readConstruct table tokens = constructWith (expression table nestingLimit) tokens := by
  fun_cases readConstruct table tokens with
  | case1 => rfl
  | case2 rest => rfl
  | case3 rest => rfl
  | case4 rest => rfl
  | case5 tokens hnil hseparator hdefine hdeclare =>
    exact (constructWith.eq_5 _ _ hnil hseparator hdefine hdeclare).symm

/-- The expressions that are opened when a construct is read without a limit, in order. The body
    of a definition is opened once its prototype was read. -/
def constructOpenings (table : PrecedenceTable) : List Token → List Opening
  | [] => []
  | .symbol ';' :: _ => []
  | .define :: rest =>
    match (readPrototype rest).result with
    | .ok _ => openings table 1 (readPrototype rest).rest
    | .error _ => []
  | .declare :: _ => []
  | tokens => openings table 1 tokens

/-- Constructs with the limit are constructs without it, cut short where an expression is first
    opened too deep. -/
theorem readConstruct_eq_cutAt (table : PrecedenceTable) (tokens : List Token) :
    readConstruct table tokens =
      (constructWith (boundless table) tokens).cutAt
        (firstTooDeep (constructOpenings table tokens)) := by
  have hexpr : ∀ tokens, readExpression table tokens =
      ((boundless table).read tokens).cutAt (firstTooDeep (openings table 1 tokens)) :=
    fun tokens => expression_eq_cutAt table tokens (Nat.add_comm _ _)
  fun_cases readConstruct table tokens with
  | case1 => rfl
  | case2 rest => rfl
  | case3 rest =>
    rw [constructWith, constructOpenings]
    rcases readPrototype rest with ⟨result, left⟩
    cases result with
    | error e => rfl
    | ok proto =>
      simp only [Parsed.bind]
      rw [hexpr, Parsed.cutAt_map]
  | case4 rest => rfl
  | case5 tokens hnil hseparator hdefine hdeclare =>
    rw [constructWith.eq_5 _ _ hnil hseparator hdefine hdeclare,
      constructOpenings.eq_5 _ _ hnil hseparator hdefine hdeclare, hexpr, Parsed.cutAt_map]

theorem depth_of_firstTooDeep_construct {table : PrecedenceTable} {tokens : List Token}
    {o : Opening} (ho : firstTooDeep (constructOpenings table tokens) = some o) :
    o.depth = nestingLimit + 1 := by
  unfold constructOpenings at ho
  split at ho
  · simp [firstTooDeep] at ho
  · simp [firstTooDeep] at ho
  · split at ho
    · exact depth_of_firstTooDeep (Nat.add_comm _ _) ho
    · simp [firstTooDeep] at ho
  · simp [firstTooDeep] at ho
  · exact depth_of_firstTooDeep (Nat.add_comm _ _) ho

/-- The limit on nesting changes nothing below it. The reader without a limit satisfies the
    equation of expressions at every level. If it never has more expressions open than the limit
    allows, constructs are read with the limit as they are without. Otherwise there is a first
    expression that is opened too deep; it is one level too deep, and reading with the limit is
    refused there with the tokens that are left then. Reading with a counter of the open expressions
    is reading with the limit, and behind every expression, read or refused, the counter is what it
    was in front of it. -/
theorem nesting_limit_transparent (table : PrecedenceTable) :
    (∀ tokens, (boundless table).read tokens = readChain table (primary (boundless table)) tokens) ∧
    (∀ tokens,
      readConstruct table tokens = constructWith (expression table nestingLimit) tokens ∧
      ((∀ o ∈ constructOpenings table tokens, o.depth ≤ nestingLimit) →
        readConstruct table tokens = constructWith (boundless table) tokens) ∧
      ((∃ o ∈ constructOpenings table tokens, nestingLimit < o.depth) →
        ∃ before o after, constructOpenings table tokens = before ++ o :: after ∧
          (∀ b ∈ before, b.depth ≤ nestingLimit) ∧ o.depth = nestingLimit + 1 ∧
          readConstruct table tokens = .fail (.nestingTooDeep nestingLimit) o.left)) ∧
    (∀ tokens, countConstruct table 0 tokens = ⟨readConstruct table tokens, 0⟩) ∧
    ∀ n rounds tokens, n ≤ nestingLimit → nestingLimit < n + rounds →
      (countExpression table rounds).read n tokens =
        ⟨(expression table (nestingLimit - n)).read tokens, n⟩ := by
  refine ⟨boundless_read table, fun tokens => ⟨readConstruct_eq_constructWith table tokens,
    fun hle => ?_, fun hdeep => ?_⟩, countConstruct_eq table,
    fun n rounds tokens hn hrounds => countExpression_tracks table hn hrounds tokens⟩
  · have hnone : firstTooDeep (constructOpenings table tokens) = none :=
      List.find?_eq_none.mpr fun o ho => by simpa using hle o ho
    rw [readConstruct_eq_cutAt, hnone, Parsed.cutAt_none]
  · obtain ⟨o, ho⟩ : ∃ o, firstTooDeep (constructOpenings table tokens) = some o := by
      rw [← Option.isSome_iff_exists]
      exact List.find?_isSome.mpr (by simpa using hdeep)
    obtain ⟨-, before, after, hsplit, hbefore⟩ := List.find?_eq_some_iff_append.mp ho
    refine ⟨before, o, after, hsplit, fun b hb => by simpa using hbefore b hb,
      depth_of_firstTooDeep_construct ho, ?_⟩
    rw [readConstruct_eq_cutAt, ho, Parsed.cutAt_some]

/-- Behind 256 opening parentheses the 257th expression is opened, and the limit refuses it. -/
theorem nesting_limit_transparent_parentheses :
    let tokens := List.replicate 256 (Token.symbol '(')
    (∃ o ∈ constructOpenings .standard tokens, nestingLimit < o.depth) ∧
      ∃ before o after, constructOpenings .standard tokens = before ++ o :: after ∧
        (∀ b ∈ before, b.depth ≤ nestingLimit) ∧ o.depth = nestingLimit + 1 ∧
        readConstruct .standard tokens = .fail (.nestingTooDeep nestingLimit) o.left := by
  intro tokens
  have hdeep : ∃ o ∈ constructOpenings .standard tokens, nestingLimit < o.depth := by
    have hmem := mem_openings_of_parentheses .standard 1 256 []
    rw [List.append_nil] at hmem
    exact ⟨_, hmem, by decide⟩
  exact ⟨hdeep, ((nesting_limit_transparent .standard).2.1 tokens).2.2 hdeep⟩

end Formulary

import Formulary.Proofs.Endings
import Formulary.Proofs.Faults
import Mathlib.Data.Finset.Card

/-!
# How deep making code can recurse

Making code walks down the left operands in a loop and calls itself for the expression at the lower
end, for each right operand on the way, and for the arguments of a call. A chain of operators nests
on the right only where a tighter operator follows, so a chain adds at most one call for each
precedence of the table, however long it is. Parentheses and arguments add to that once for each
expression that is open. So the depth of an expression that was read is bounded by the limit on
nesting and by the table alone.

* `Expr.activations`: how many calls are open at once; `Expr.activations_binary` for operations.
* `PrecedenceTable.levels`: the precedences of a table.
* `Grouped.activations_le`: what grouping a chain adds.
* `Phrase.activations_le`: the bound by nesting and precedences.
* `activations_le_of_readConstruct`: the bound for everything that is read.
-/

namespace Formulary

/-! ## Activations -/

namespace Expr

mutual

/-- How many calls for an expression and the parts of it are open at once, its own included. -/
def activations : Expr → Nat
  | number _ => 1
  | var _ => 1
  | binary _ lhs rhs => 1 + max lhs.spineActivations rhs.activations
  | call _ args => 1 + mostActivations args

/-- The most activations of what stands along the left operands of an expression. -/
def spineActivations : Expr → Nat
  | number _ => 1
  | var _ => 1
  | binary _ lhs rhs => max lhs.spineActivations rhs.activations
  | call _ args => 1 + mostActivations args

/-- The most activations of one of several expressions. -/
def mostActivations : List Expr → Nat
  | [] => 0
  | e :: rest => max e.activations (mostActivations rest)

end

/-- The expression at the lower end of the left operands. -/
def leftmost : Expr → Expr
  | binary _ lhs _ => lhs.leftmost
  | e => e

/-- The right operands along the left operands, from the lower end on. -/
def rightOperands : Expr → List Expr
  | binary _ lhs rhs => lhs.rightOperands ++ [rhs]
  | _ => []

theorem mostActivations_append (es es' : List Expr) :
    mostActivations (es ++ es') = max (mostActivations es) (mostActivations es') := by
  induction es with
  | nil => simp [mostActivations]
  | cons e es ih => rw [List.cons_append, mostActivations, mostActivations, ih, Nat.max_assoc]

theorem spineActivations_eq : ∀ e : Expr,
    e.spineActivations = mostActivations (e.leftmost :: e.rightOperands)
  | number _ => by simp [spineActivations, leftmost, rightOperands, mostActivations, activations]
  | var _ => by simp [spineActivations, leftmost, rightOperands, mostActivations, activations]
  | call _ _ => by simp [spineActivations, leftmost, rightOperands, mostActivations, activations]
  | binary op lhs rhs => by
    rw [spineActivations, spineActivations_eq lhs, leftmost, rightOperands, ← List.cons_append,
      mostActivations_append]
    simp [mostActivations]

/-- An operation calls for the expression at the lower end of its left operands and for the right
    operands along them. -/
theorem activations_binary (op : Char) (lhs rhs : Expr) :
    (binary op lhs rhs).activations =
      1 + mostActivations ((binary op lhs rhs).leftmost :: (binary op lhs rhs).rightOperands) := by
  rw [← spineActivations_eq, activations, spineActivations]

/-- Only an operation has more activations than what stands along its left operands. -/
theorem activations_le_spine (e : Expr) : e.activations ≤ e.spineActivations + 1 := by
  cases e <;> simp only [activations, spineActivations] <;> omega

theorem spineActivations_le (e : Expr) : e.spineActivations ≤ e.activations := by
  cases e <;> simp only [activations, spineActivations] <;> omega

mutual

theorem activations_le_of_mem_visits {x : Expr} : ∀ {e : Expr}, x ∈ e.visits →
    x.activations ≤ e.activations
  | number _, h => by
    rw [List.mem_singleton.mp h]
  | var _, h => by
    rw [List.mem_singleton.mp h]
  | binary op lhs rhs, h => by
    rw [visits, List.mem_append, List.mem_append, List.mem_singleton] at h
    rw [activations]
    rcases h with h | h | rfl
    · have hpart := activations_le_of_mem_visits h
      have hspine := lhs.activations_le_spine
      omega
    · have hpart := activations_le_of_mem_visits h
      omega
    · rw [activations]
  | call callee args, h => by
    rw [visits, List.mem_cons] at h
    rcases h with rfl | h
    · exact Nat.le_refl _
    · have hpart := activations_le_of_mem_visitsAll h
      rw [activations]
      omega

theorem activations_le_of_mem_visitsAll {x : Expr} : ∀ {es : List Expr}, x ∈ visitsAll es →
    x.activations ≤ mostActivations es
  | [], h => by simp [visitsAll] at h
  | e :: rest, h => by
    rw [visitsAll, List.mem_append] at h
    rw [mostActivations]
    rcases h with h | h
    · have hpart := activations_le_of_mem_visits h
      omega
    · have hpart := activations_le_of_mem_visitsAll h
      omega

end

end Expr

/-! ## Precedences -/

/-- The precedences that the operators of a table have. -/
def PrecedenceTable.levels (table : PrecedenceTable) : Finset Int32 :=
  ((table.entries.map (·.1)).filterMap table.get?).toFinset

theorem mem_map_fst_of_lookup {entries : List (Char × Int32)} {op : Char} {precedence : Int32}
    (h : entries.lookup op = some precedence) : op ∈ entries.map (·.1) := by
  induction entries with
  | nil => simp at h
  | cons entry entries ih =>
    rw [List.lookup_cons] at h
    rw [List.map_cons, List.mem_cons]
    split at h
    · next heq => exact .inl (by simpa using heq)
    · exact .inr (ih h)

theorem PrecedenceTable.mem_levels_iff {table : PrecedenceTable} {precedence : Int32} :
    precedence ∈ table.levels ↔ ∃ op, table.get? op = some precedence := by
  rw [levels, List.mem_toFinset, List.mem_filterMap]
  constructor
  · rintro ⟨op, -, hop⟩
    exact ⟨op, hop⟩
  · rintro ⟨op, hop⟩
    exact ⟨op, mem_map_fst_of_lookup (Option.filter_eq_some_iff.mp hop).1, hop⟩

/-! ## Chains -/

/-- Grouping a chain of operands with at most `bound` activations each adds at most one for each
    precedence of its operators, and along the left operands one less. -/
theorem Grouped.activations_le {first e : Expr} {links : List Link} (h : Grouped first links e)
    {bound : Nat} (hfirst : first.activations ≤ bound)
    (hlinks : ∀ l ∈ links, l.operand.activations ≤ bound) {levels : Finset Int32}
    (hlevels : ∀ l ∈ links, l.precedence ∈ levels) :
    e.activations ≤ bound + levels.card ∧ e.spineActivations ≤ bound + (levels.card - 1) := by
  induction h generalizing levels with
  | single first =>
    have hspine := first.spineActivations_le
    exact ⟨by omega, by omega⟩
  | @split first lhs rhs before after link hbefore hafter _ _ ihl ihr =>
    simp only [List.mem_append, List.mem_cons] at hlinks hlevels
    have hlink : link.precedence ∈ levels := hlevels link (by simp)
    have hleft := ihl hfirst (fun l hl => hlinks l (.inl hl)) (fun l hl => hlevels l (.inl hl))
    -- the right operand has the precedences above that of its operator
    have habove : ∀ l ∈ after, l.precedence ∈ levels.erase link.precedence := fun l hl =>
      Finset.mem_erase.mpr ⟨(Int32.ne_of_lt (hafter l hl)).symm, hlevels l (.inr (.inr hl))⟩
    have hright := ihr (hlinks link (by simp)) (fun l hl => hlinks l (.inr (.inr hl))) habove
    rw [Finset.card_erase_of_mem hlink] at hright
    have hpos := Finset.card_pos.mpr ⟨_, hlink⟩
    rw [Expr.activations, Expr.spineActivations]
    omega

/-! ## Phrases -/

section Phrases

variable {table : PrecedenceTable}

mutual

/-- With at most `n` expressions nested, each adds one activation for each precedence and one
    more. -/
theorem Phrase.activations_le {n : Nat} {c : List Token} {e : Expr} :
    Phrase table n c e → e.activations ≤ n * (table.levels.card + 1)
  | .chain (n := n) hfirst hlinks hgroup => by
    have hle := (hgroup.activations_le hfirst.activations_le
      (fun l hl => (hlinks.activations_le l hl).1) (fun l hl => (hlinks.activations_le l hl).2)).1
    rw [Nat.succ_mul]
    omega

theorem PrimaryPhrase.activations_le {n : Nat} {c : List Token} {e : Expr} :
    PrimaryPhrase table n c e → e.activations ≤ n * (table.levels.card + 1) + 1
  | .number x => by rw [Expr.activations]; omega
  | .var name => by rw [Expr.activations]; omega
  | .callEmpty callee => by rw [Expr.activations, Expr.mostActivations]; omega
  | .call callee hargs => by
    have hle := hargs.activations_le
    rw [Expr.activations]
    omega
  | .parens hinner => by
    have hle := hinner.activations_le
    omega

theorem LinkPhrases.activations_le {n : Nat} {d : List Token} {links : List Link} :
    LinkPhrases table n d links → ∀ l ∈ links,
      l.operand.activations ≤ n * (table.levels.card + 1) + 1 ∧ l.precedence ∈ table.levels
  | .nil => by simp
  | .cons hop hoperand hlinks => by
    rw [List.forall_mem_cons]
    exact ⟨⟨hoperand.activations_le, PrecedenceTable.mem_levels_iff.mpr ⟨_, hop⟩⟩,
      hlinks.activations_le⟩

theorem ArgumentPhrases.activations_le {n : Nat} {c : List Token} {args : List Expr} :
    ArgumentPhrases table n c args →
      Expr.mostActivations args ≤ n * (table.levels.card + 1)
  | .last harg => by
    have hle := harg.activations_le
    rw [Expr.mostActivations, Expr.mostActivations]
    omega
  | .cons harg hargs => by
    have hle := harg.activations_le
    have hrest := hargs.activations_le
    rw [Expr.mostActivations]
    omega

end

end Phrases

/-- The expression that a construct holds, if it holds one. -/
def Construct.body? : Construct → Option Expr
  | definition f => some f.body
  | expression f => some f.body
  | _ => none

/-- Every expression in a construct that is read, from whatever tokens, has at most as many
    activations as expressions may be nested, times one more than the table has precedences. -/
theorem activations_le_of_readConstruct {table : PrecedenceTable} {tokens : List Token}
    {c : Construct} (h : (readConstruct table tokens).result = .ok c) {body e : Expr}
    (hbody : c.body? = some body) (he : e ∈ body.visits) :
    e.activations ≤ nestingLimit * (table.levels.card + 1) := by
  have hne : tokens ≠ [] := by
    rintro rfl
    obtain rfl := Except.ok.inj h
    simp [Construct.body?] at hbody
  obtain ⟨used, -, hphrase⟩ := readConstruct_sound hne (congrArg₂ Parsed.mk h rfl)
  refine (Expr.activations_le_of_mem_visits he).trans ?_
  cases hphrase with
  | separator => simp [Construct.body?] at hbody
  | declaration p => simp [Construct.body?] at hbody
  | expression hphrase =>
    obtain rfl := Option.some.inj hbody
    exact hphrase.activations_le
  | definition p hphrase =>
    obtain rfl := Option.some.inj hbody
    exact hphrase.activations_le

/-- The operand behind the comparison in `x < x * x` is made by a call of its own. -/
theorem activations_le_of_readConstruct_comparison :
    let body := Expr.binary '<' (.var "x") (.binary '*' (.var "x") (.var "x"))
    (readConstruct .standard (tokens false "def f(x) x < x * x".toList)).result =
        .ok (.definition ⟨⟨"f", ["x"]⟩, body⟩) ∧
      body.activations = 3 ∧ PrecedenceTable.standard.levels.card = 3 ∧
      body.activations ≤ nestingLimit * (PrecedenceTable.standard.levels.card + 1) := by
  intro body
  have htokens : tokens false "def f(x) x < x * x".toList = .define ::
      (Prototype.spelling ⟨"f", ["x"]⟩ ++ [.identifier "x", .symbol '<', .identifier "x",
        .symbol '*', .identifier "x"]) := by decide +kernel
  have hlinks : LinkPhrases .standard 255 [.symbol '<', .identifier "x", .symbol '*',
      .identifier "x"] [⟨'<', 10, .var "x"⟩, ⟨'*', 40, .var "x"⟩] :=
    .cons (by decide) (.var "x") (.cons (by decide) (.var "x") .nil)
  have hproduct : Grouped (.var "x") [⟨'*', 40, .var "x"⟩] (.binary '*' (.var "x") (.var "x")) :=
    @Grouped.split _ _ _ [] [] ⟨'*', 40, .var "x"⟩ (by simp) (by simp) (.single _) (.single _)
  have hphrase : Phrase .standard nestingLimit [.identifier "x", .symbol '<', .identifier "x",
      .symbol '*', .identifier "x"] body :=
    .chain (.var "x") hlinks
      (@Grouped.split _ _ _ [] [_] ⟨'<', 10, .var "x"⟩ (by simp) (by simp) (.single _) hproduct)
  have hread : (readConstruct .standard (tokens false "def f(x) x < x * x".toList)).result =
      .ok (.definition ⟨⟨"f", ["x"]⟩, body⟩) := by
    rw [htokens, readConstruct_definition hphrase]
    rfl
  refine ⟨hread, by decide, by decide, activations_le_of_readConstruct hread rfl ?_⟩
  simp [body, Expr.visits]

end Formulary

import Formulary.Grammar.Chain
import Formulary.Grammar.Precedence
import Formulary.Grammar.Reader

/-!
# Reading expressions

An expression is a chain of primaries joined by operators. A primary is a number, a variable, a
call, or an expression in parentheses. Arguments and parentheses open expressions inside
expressions, and at most `nestingLimit` may be open at once.

* `readPrimary`: a primary, given a reader of the expressions inside it.
* `readChain`: a chain of primaries.
* `expression`: a reader of expressions that may still open a number of levels.
-/

namespace Formulary

/-! ## Primaries -/

/-- Reads arguments up to the closing parenthesis. Those read before stand in `done`, in
    reverse. -/
def readArguments (inner : Reader Expr) (done : List Expr) (tokens : List Token) :
    Parsed (List Expr) :=
  let parsed := inner.read tokens
  match parsed.result with
  | .error e => .fail e parsed.rest
  | .ok arg =>
    match _h : parsed.rest with
    | .symbol ')' :: rest => .ok (arg :: done).reverse rest
    | .symbol ',' :: rest => readArguments inner (arg :: done) rest
    | rest => .fail (faultAt .expectedArgumentSeparator rest) rest
termination_by tokens.length
decreasing_by exact inner.length_lt_of_rest _h

/-- Reads a call behind its opening parenthesis. A refused number there is reported before an
    argument is opened. -/
def readCall (inner : Reader Expr) (callee : String) : List Token → Parsed Expr
  | .symbol ')' :: rest => .ok (.call callee []) rest
  | .malformed text :: rest => .fail (.malformedNumber text) (.malformed text :: rest)
  | tokens => (readArguments inner [] tokens).map (.call callee)

/-- Reads what follows an identifier (`parse_identifier_expr`): the arguments of a call, or nothing.
    A refused number behind an identifier is reported at once. -/
def readReference (inner : Reader Expr) (name : String) : List Token → Parsed Expr
  | .symbol '(' :: rest => readCall inner name rest
  | .malformed text :: rest => .fail (.malformedNumber text) (.malformed text :: rest)
  | rest => .ok (.var name) rest

/-- Reads the closing parenthesis behind an expression (`parse_paren_expr`). -/
def readClosing (e : Expr) : List Token → Parsed Expr
  | .symbol ')' :: rest => .ok e rest
  | rest => .fail (faultAt .expectedClosingParen rest) rest

/-- Reads a primary (`parse_primary`). -/
def readPrimary (inner : Reader Expr) : List Token → Parsed Expr
  | .identifier name :: rest => readReference inner name rest
  | .number x :: rest => .ok (.number x) rest
  | .symbol '(' :: rest => (inner.read rest).bind readClosing
  | tokens => .fail (faultAt .expectedExpression tokens) tokens

theorem readArguments_suffix (inner : Reader Expr) (done : List Expr) (tokens : List Token) :
    (readArguments inner done tokens).rest <:+ tokens := by
  fun_induction readArguments inner done tokens with
  | case1 done tokens parsed e he => exact inner.suffix tokens
  | case2 done tokens parsed arg harg rest hrest =>
    exact (List.suffix_cons _ _).trans (hrest ▸ inner.suffix tokens)
  | case3 done tokens parsed arg harg rest hrest ih =>
    exact (ih.trans (List.suffix_cons _ _)).trans (hrest ▸ inner.suffix tokens)
  | case4 done tokens parsed arg harg => exact inner.suffix tokens

theorem readCall_suffix (inner : Reader Expr) (callee : String) (tokens : List Token) :
    (readCall inner callee tokens).rest <:+ tokens := by
  unfold readCall
  split
  · exact List.suffix_cons _ _
  · exact List.suffix_rfl
  · rw [Parsed.rest_map]
    exact readArguments_suffix inner [] _

theorem readReference_suffix (inner : Reader Expr) (name : String) (tokens : List Token) :
    (readReference inner name tokens).rest <:+ tokens := by
  unfold readReference
  split
  · exact (readCall_suffix inner name _).trans (List.suffix_cons _ _)
  · exact List.suffix_rfl
  · exact List.suffix_rfl

theorem readClosing_suffix (e : Expr) (tokens : List Token) :
    (readClosing e tokens).rest <:+ tokens := by
  unfold readClosing
  split
  · exact List.suffix_cons _ _
  · exact List.suffix_rfl

theorem readPrimary_suffix (inner : Reader Expr) (tokens : List Token) :
    (readPrimary inner tokens).rest <:+ tokens := by
  unfold readPrimary
  split
  · exact (readReference_suffix inner _ _).trans (List.suffix_cons _ _)
  · exact List.suffix_cons _ _
  · refine List.IsSuffix.trans ?_ (List.suffix_cons _ _)
    exact Parsed.bind_suffix (inner.suffix _) fun e rest h => (readClosing_suffix e rest).trans h
  · exact List.suffix_rfl

/-- The reader of primaries. -/
def primary (inner : Reader Expr) : Reader Expr := ⟨readPrimary inner, readPrimary_suffix inner⟩

/-! ## Chains -/

/-- Reads links for as long as an operator of the table stands in front (`current_binop`). Those
    read before stand in `done`, in reverse. -/
def readLinks (table : PrecedenceTable) (operand : Reader Expr) (done : List Link)
    (tokens : List Token) : Parsed (List Link) :=
  match tokens with
  | .symbol op :: rest =>
    match table.get? op with
    | none => .ok done.reverse (.symbol op :: rest)
    | some precedence =>
      let parsed := operand.read rest
      match parsed.result with
      | .error e => .fail e parsed.rest
      | .ok rhs => readLinks table operand (⟨op, precedence, rhs⟩ :: done) parsed.rest
  | tokens => .ok done.reverse tokens
termination_by tokens.length
decreasing_by exact Nat.lt_succ_of_le (operand.suffix rest).length_le

/-- Reads a chain and groups it (`parse_binop_rhs`). -/
def readChain (table : PrecedenceTable) (operand : Reader Expr) (tokens : List Token) :
    Parsed Expr :=
  (operand.read tokens).bind fun first rest =>
    (readLinks table operand [] rest).map (groupChain first)

theorem readLinks_suffix (table : PrecedenceTable) (operand : Reader Expr) (done : List Link)
    (tokens : List Token) : (readLinks table operand done tokens).rest <:+ tokens := by
  fun_induction readLinks table operand done tokens with
  | case1 => exact List.suffix_rfl
  | case2 done op rest precedence hop parsed e he =>
    exact (operand.suffix rest).trans (List.suffix_cons _ _)
  | case3 done op rest precedence hop parsed rhs hrhs ih =>
    exact (ih.trans (operand.suffix rest)).trans (List.suffix_cons _ _)
  | case4 => exact List.suffix_rfl

theorem readChain_suffix (table : PrecedenceTable) (operand : Reader Expr) (tokens : List Token) :
    (readChain table operand tokens).rest <:+ tokens := by
  refine Parsed.bind_suffix (operand.suffix tokens) fun first rest h => ?_
  rw [Parsed.rest_map]
  exact (readLinks_suffix table operand [] rest).trans h

/-- Links that were read before stand in front of those that are read. -/
theorem readLinks_eq (table : PrecedenceTable) (operand : Reader Expr) (done : List Link)
    (tokens : List Token) :
    readLinks table operand done tokens =
      (readLinks table operand [] tokens).map (done.reverse ++ ·) := by
  induction hn : tokens.length using Nat.strongRecOn generalizing done tokens with
  | ind n ih =>
    rw [readLinks.eq_def table operand done, readLinks.eq_def table operand []]
    split
    · next op rest =>
      split
      · simp [Parsed.map, Parsed.bind, Parsed.ok]
      · simp only
        split
        · rfl
        · have hlt : (operand.read rest).rest.length < n := by
            have := (operand.suffix rest).length_le
            rw [← hn]
            exact Nat.lt_succ_of_le this
          rw [ih _ hlt _ _ rfl, ih _ hlt [_] _ rfl, Parsed.map_map]
          congr 1
          funext links
          simp
    · simp [Parsed.map, Parsed.bind, Parsed.ok]

/-- The reader of chains. -/
def chain (table : PrecedenceTable) (operand : Reader Expr) : Reader Expr :=
  ⟨readChain table operand, readChain_suffix table operand⟩

/-! ## Expressions -/

/-- How many expressions may be open at once (`MAX_NESTING_DEPTH`). -/
def nestingLimit : Nat := 256

/-- The reader of expressions that may still open `levels` levels, its own included
    (`parse_expression`). -/
def expression (table : PrecedenceTable) : (levels : Nat) → Reader Expr
  | 0 => .fail (.nestingTooDeep nestingLimit)
  | levels + 1 => chain table (primary (expression table levels))

/-- Reads an expression that is not inside another. -/
def readExpression (table : PrecedenceTable) (tokens : List Token) : Parsed Expr :=
  (expression table nestingLimit).read tokens

end Formulary

import Formulary.Grammar.Expression
import Formulary.Language.Construct
import Formulary.Lexical.Scan

/-!
# Reading programs

* `readPrototype`: a name with its parameters.
* `readConstruct`: the next construct of a program.
* `parseExpr`: a text that is one expression and nothing else.
-/

namespace Formulary

/-- Reads parameters up to the closing parenthesis. Those read before stand in `done`, in
    reverse. -/
def readParams (done : List String) : List Token → Parsed (List String)
  | .identifier name :: rest => readParams (name :: done) rest
  | .symbol ')' :: rest => .ok done.reverse rest
  | tokens => .fail (faultAt .expectedParamListClose tokens) tokens

/-- Reads the parameters of a named function. -/
def readSignature (name : String) : List Token → Parsed Prototype
  | .symbol '(' :: rest => (readParams [] rest).map (⟨name, ·⟩)
  | tokens => .fail (faultAt .expectedParamListOpen tokens) tokens

/-- Reads a name with its parameters (`parse_prototype`). -/
def readPrototype : List Token → Parsed Prototype
  | .identifier name :: rest => readSignature name rest
  | tokens => .fail (faultAt .expectedFunctionName tokens) tokens

/-- Reads the next construct (`parse_next_construct`). A semicolon is a separator even where it is
    an operator. -/
def readConstruct (table : PrecedenceTable) : List Token → Parsed Construct
  | [] => .ok .endOfInput []
  | .symbol ';' :: rest => .ok .separator rest
  | .define :: rest =>
    (readPrototype rest).bind fun proto rest =>
      (readExpression table rest).map fun body => .definition ⟨proto, body⟩
  | .declare :: rest => (readPrototype rest).map .declaration
  | tokens => (readExpression table tokens).map fun body => .expression (.ofExpr body)

/-- Reads a text that is one expression with the operators of the language (`parse_expr`). -/
def parseExpr (source : String) : Except ParseError Expr :=
  let parsed := readExpression .standard (tokens false source.toList)
  match parsed.result, parsed.rest with
  | .ok e, [] => .ok e
  | .ok _, rest => .error (faultAt .trailingInput rest)
  | .error e, _ => .error e

/-! ## What is left behind a construct -/

theorem readParams_suffix (done : List String) (tokens : List Token) :
    (readParams done tokens).rest <:+ tokens := by
  fun_induction readParams done tokens with
  | case1 done name rest ih => exact ih.trans (List.suffix_cons _ _)
  | case2 done rest => exact List.suffix_cons _ _
  | case3 => exact List.suffix_rfl

theorem readSignature_suffix (name : String) (tokens : List Token) :
    (readSignature name tokens).rest <:+ tokens := by
  unfold readSignature
  split
  · rw [Parsed.rest_map]
    exact (readParams_suffix [] _).trans (List.suffix_cons _ _)
  · exact List.suffix_rfl

theorem readPrototype_suffix (tokens : List Token) :
    (readPrototype tokens).rest <:+ tokens := by
  unfold readPrototype
  split
  · exact (readSignature_suffix _ _).trans (List.suffix_cons _ _)
  · exact List.suffix_rfl

theorem readExpression_suffix (table : PrecedenceTable) (tokens : List Token) :
    (readExpression table tokens).rest <:+ tokens :=
  (expression table nestingLimit).suffix tokens

/-- A construct takes tokens from the front only. -/
theorem readConstruct_suffix (table : PrecedenceTable) (tokens : List Token) :
    (readConstruct table tokens).rest <:+ tokens := by
  unfold readConstruct
  split
  · exact List.suffix_rfl
  · exact List.suffix_cons _ _
  · refine List.IsSuffix.trans ?_ (List.suffix_cons _ _)
    refine Parsed.bind_suffix (readPrototype_suffix _) fun proto rest h => ?_
    rw [Parsed.rest_map]
    exact (readExpression_suffix table rest).trans h
  · rw [Parsed.rest_map]
    exact (readPrototype_suffix _).trans (List.suffix_cons _ _)
  · rw [Parsed.rest_map]
    exact readExpression_suffix table _

end Formulary

import Formulary.Grammar.Program
import Formulary.Lexical.Lexer

/-!
# Reading on demand

A parser has one token in sight and asks its lexer for the next one only when that token is used.
It reads phrases by the same rules as the readers of lists of tokens, but the tokens behind the one
in sight have not been read yet.

* `Parser.advance`: uses the token in sight.
* `Streamed`, `StreamReader`: outcomes and readers on a parser, which only go forward.
* `Parser.readPrimary`, `Parser.expression`, `Parser.readConstruct`: the readers of phrases.
* `Parser.size_readConstruct_lt`: a construct uses up a token.
-/

namespace Formulary

/-- A lexer with a token in sight (`Parser`). -/
structure Parser (σ : Type) where
  /-- The token in sight; none at the end. -/
  current : Option Token
  lexer : Lexer σ

/-- The outcome of reading a phrase on demand, and the parser behind it. -/
structure Streamed (σ α : Type) where
  result : Except ParseError α
  parser : Parser σ

variable {σ α β : Type}

namespace Streamed

/-- Goes on reading behind a phrase, unless there was a fault. -/
def bind (s : Streamed σ α) (next : α → Parser σ → Streamed σ β) : Streamed σ β :=
  match s.result with
  | .ok a => next a s.parser
  | .error e => ⟨.error e, s.parser⟩

/-- Applies a function to the meaning of a phrase. -/
def map (f : α → β) (s : Streamed σ α) : Streamed σ β := ⟨s.result.map f, s.parser⟩

/-- Success of a phrase and all behind it is success of the phrase. -/
theorem bind_eq_ok {s : Streamed σ α} {next : α → Parser σ → Streamed σ β} {b : β}
    (h : (s.bind next).result = .ok b) :
    ∃ a, s.result = .ok a ∧ s.bind next = next a s.parser := by
  unfold bind at h ⊢
  split at h
  · next a ha => exact ⟨a, ha, rfl⟩
  · simp at h

theorem map_eq_ok {s : Streamed σ α} {f : α → β} {b : β} (h : (s.map f).result = .ok b) :
    ∃ a, s.result = .ok a := by
  unfold map at h
  cases hs : s.result with
  | error e =>
    rw [hs] at h
    simp [Except.map] at h
  | ok a => exact ⟨a, rfl⟩

end Streamed

variable [CharSource σ]

/-! ## Tokens on demand -/

namespace Parser

/-- The first token is in sight (`new`). -/
def start (strict : Bool) (source : σ) : Parser σ :=
  let (current, lexer) := (Lexer.start strict source).next
  ⟨current, lexer⟩

/-- Uses the token in sight and reads the next one (`advance`, `skip_token`). -/
def advance (p : Parser σ) : Parser σ :=
  let (current, lexer) := p.lexer.next
  ⟨current, lexer⟩

/-- A bound on the tokens that have not been used. -/
def size (p : Parser σ) : Nat := p.lexer.size + p.current.toList.length

theorem size_advance_le (p : Parser σ) : p.advance.size ≤ p.size :=
  Nat.le_trans (Lexer.size_next_le p.lexer) (Nat.le_add_right _ _)

theorem size_advance_lt {p : Parser σ} {t : Token} (h : p.current = some t) :
    p.advance.size < p.size := by
  have hle : p.advance.size ≤ p.lexer.size := Lexer.size_next_le p.lexer
  have hsize : p.size = p.lexer.size + 1 := by rw [size, h, Option.toList_some]; rfl
  omega

/-- The parser is the other one, or has used tokens since. -/
def Behind (q p : Parser σ) : Prop := q = p ∨ q.size < p.size

theorem Behind.refl (p : Parser σ) : p.Behind p := .inl rfl

theorem Behind.size_le {p q : Parser σ} (h : q.Behind p) : q.size ≤ p.size := by
  rcases h with rfl | h
  · exact Nat.le_refl _
  · exact Nat.le_of_lt h

theorem Behind.trans {p q r : Parser σ} (h : r.Behind q) (h' : q.Behind p) : r.Behind p := by
  rcases h with rfl | h
  · exact h'
  · exact .inr (Nat.lt_of_lt_of_le h h'.size_le)

theorem advance_behind {p : Parser σ} {t : Token} (h : p.current = some t) : p.advance.Behind p :=
  .inr (size_advance_lt h)

end Parser

/-! ## Readers -/

theorem Streamed.bind_behind {s : Streamed σ α} {next : α → Parser σ → Streamed σ β}
    {p : Parser σ} (hs : s.parser.Behind p) (hnext : ∀ a q, (next a q).parser.Behind q) :
    (s.bind next).parser.Behind p := by
  unfold bind
  split
  · exact (hnext _ _).trans hs
  · exact hs

/-- A reading function on parsers that only goes forward. -/
structure StreamReader (σ α : Type) [CharSource σ] where
  read : Parser σ → Streamed σ α
  behind : ∀ p, (read p).parser.Behind p

namespace Parser

/-- A fault at the token in sight. A refused number is reported as such (`current`). -/
def fault (p : Parser σ) (expected : ParseError) : Streamed σ α :=
  ⟨.error (faultAt expected p.current.toList), p⟩

/-! ## Prototypes -/

/-- Reads parameters up to the closing parenthesis. Those read before stand in `done`, in
    reverse. -/
def readParams (done : List String) (p : Parser σ) : Streamed σ (List String) :=
  match _h : p.current with
  | some (.identifier name) => readParams (name :: done) p.advance
  | some (.symbol ')') => ⟨.ok done.reverse, p.advance⟩
  | _ => p.fault .expectedParamListClose
termination_by p.size
decreasing_by exact size_advance_lt _h

/-- Reads the parameters of a named function. -/
def readSignature (name : String) (p : Parser σ) : Streamed σ Prototype :=
  match p.current with
  | some (.symbol '(') => (readParams [] p.advance).map (⟨name, ·⟩)
  | _ => p.fault .expectedParamListOpen

/-- Reads a name with its parameters (`parse_prototype`). -/
def readPrototype (p : Parser σ) : Streamed σ Prototype :=
  match p.current with
  | some (.identifier name) => readSignature name p.advance
  | _ => p.fault .expectedFunctionName

theorem readParams_behind (done : List String) (p : Parser σ) :
    (readParams done p).parser.Behind p := by
  fun_induction readParams done p with
  | case1 done p name hname ih => exact ih.trans (advance_behind hname)
  | case2 done p hclose => exact advance_behind hclose
  | case3 done p => exact .refl p

theorem readSignature_behind (name : String) (p : Parser σ) :
    (readSignature name p).parser.Behind p := by
  unfold readSignature
  split
  · next hopen => exact (readParams_behind [] p.advance).trans (advance_behind hopen)
  · exact .refl p

theorem readPrototype_behind (p : Parser σ) : (readPrototype p).parser.Behind p := by
  unfold readPrototype
  split
  · next name hname => exact (readSignature_behind name p.advance).trans (advance_behind hname)
  · exact .refl p

/-! ## Primaries -/

/-- Reads arguments up to the closing parenthesis. Those read before stand in `done`, in
    reverse. -/
def readArguments (inner : StreamReader σ Expr) (done : List Expr) (p : Parser σ) :
    Streamed σ (List Expr) :=
  let arg := inner.read p
  match arg.result with
  | .error e => ⟨.error e, arg.parser⟩
  | .ok e =>
    match _h : arg.parser.current with
    | some (.symbol ')') => ⟨.ok (e :: done).reverse, arg.parser.advance⟩
    | some (.symbol ',') => readArguments inner (e :: done) arg.parser.advance
    | _ => arg.parser.fault .expectedArgumentSeparator
termination_by p.size
decreasing_by exact Nat.lt_of_lt_of_le (size_advance_lt _h) (inner.behind p).size_le

/-- Reads a call behind its opening parenthesis. -/
def readCall (inner : StreamReader σ Expr) (callee : String) (p : Parser σ) : Streamed σ Expr :=
  match p.current with
  | some (.symbol ')') => ⟨.ok (.call callee []), p.advance⟩
  | some (.malformed text) => ⟨.error (.malformedNumber text), p⟩
  | _ => (readArguments inner [] p).map (.call callee)

/-- Reads what follows an identifier: the arguments of a call, or nothing
    (`parse_identifier_expr`). -/
def readReference (inner : StreamReader σ Expr) (name : String) (p : Parser σ) :
    Streamed σ Expr :=
  match p.current with
  | some (.symbol '(') => readCall inner name p.advance
  | some (.malformed text) => ⟨.error (.malformedNumber text), p⟩
  | _ => ⟨.ok (.var name), p⟩

/-- Reads the closing parenthesis behind an expression (`parse_paren_expr`). -/
def readClosing (e : Expr) (p : Parser σ) : Streamed σ Expr :=
  match p.current with
  | some (.symbol ')') => ⟨.ok e, p.advance⟩
  | _ => p.fault .expectedClosingParen

/-- Reads a primary (`parse_primary`). -/
def readPrimary (inner : StreamReader σ Expr) (p : Parser σ) : Streamed σ Expr :=
  match p.current with
  | some (.identifier name) => readReference inner name p.advance
  | some (.number x) => ⟨.ok (.number x), p.advance⟩
  | some (.symbol '(') => (inner.read p.advance).bind readClosing
  | _ => p.fault .expectedExpression

theorem readArguments_behind (inner : StreamReader σ Expr) (done : List Expr) (p : Parser σ) :
    (readArguments inner done p).parser.Behind p := by
  fun_induction readArguments inner done p with
  | case1 done p arg e he => exact inner.behind p
  | case2 done p arg e he hclose => exact (advance_behind hclose).trans (inner.behind p)
  | case3 done p arg e he hcomma ih =>
    exact (ih.trans (advance_behind hcomma)).trans (inner.behind p)
  | case4 done p arg e he => exact inner.behind p

theorem readCall_behind (inner : StreamReader σ Expr) (callee : String) (p : Parser σ) :
    (readCall inner callee p).parser.Behind p := by
  unfold readCall
  split
  · next hclose => exact advance_behind hclose
  · exact .refl p
  · exact readArguments_behind inner [] p

theorem readReference_behind (inner : StreamReader σ Expr) (name : String) (p : Parser σ) :
    (readReference inner name p).parser.Behind p := by
  unfold readReference
  split
  · next hopen => exact (readCall_behind inner name p.advance).trans (advance_behind hopen)
  · exact .refl p
  · exact .refl p

theorem readClosing_behind (e : Expr) (p : Parser σ) : (readClosing e p).parser.Behind p := by
  unfold readClosing
  split
  · next hclose => exact advance_behind hclose
  · exact .refl p

/-- Where a primary begins, its first token is used. -/
theorem readPrimary_cases (inner : StreamReader σ Expr) (p : Parser σ) :
    (readPrimary inner p).parser.size < p.size ∨
      readPrimary inner p = p.fault .expectedExpression := by
  unfold readPrimary
  split
  · next name hname =>
    exact .inl (Nat.lt_of_le_of_lt (readReference_behind inner name p.advance).size_le
      (size_advance_lt hname))
  · next x hx => exact .inl (size_advance_lt hx)
  · next hopen =>
    have hbehind := Streamed.bind_behind (inner.behind p.advance) readClosing_behind
    exact .inl (Nat.lt_of_le_of_lt hbehind.size_le (size_advance_lt hopen))
  · exact .inr rfl

theorem readPrimary_behind (inner : StreamReader σ Expr) (p : Parser σ) :
    (readPrimary inner p).parser.Behind p := by
  rcases readPrimary_cases inner p with hlt | hfault
  · exact .inr hlt
  · rw [hfault]
    exact .refl p

/-! ## Chains and expressions -/

/-- Reads links for as long as an operator of the table is in sight (`current_binop`). Those read
    before stand in `done`, in reverse. -/
def readLinks (table : PrecedenceTable) (inner : StreamReader σ Expr) (done : List Link)
    (p : Parser σ) : Streamed σ (List Link) :=
  match _h : p.current with
  | some (.symbol op) =>
    match table.get? op with
    | none => ⟨.ok done.reverse, p⟩
    | some precedence =>
      let rhs := readPrimary inner p.advance
      match rhs.result with
      | .error e => ⟨.error e, rhs.parser⟩
      | .ok e => readLinks table inner (⟨op, precedence, e⟩ :: done) rhs.parser
  | _ => ⟨.ok done.reverse, p⟩
termination_by p.size
decreasing_by
  exact Nat.lt_of_le_of_lt (readPrimary_behind inner p.advance).size_le (size_advance_lt _h)

/-- Reads a chain and groups it (`parse_binop_rhs` behind the first primary). -/
def readChain (table : PrecedenceTable) (inner : StreamReader σ Expr) (p : Parser σ) :
    Streamed σ Expr :=
  (readPrimary inner p).bind fun first p => (readLinks table inner [] p).map (groupChain first)

theorem readLinks_behind (table : PrecedenceTable) (inner : StreamReader σ Expr)
    (done : List Link) (p : Parser σ) : (readLinks table inner done p).parser.Behind p := by
  fun_induction readLinks table inner done p with
  | case1 done p op hop hget => exact .refl p
  | case2 done p op hop precedence hget rhs e he =>
    exact (readPrimary_behind inner p.advance).trans (advance_behind hop)
  | case3 done p op hop precedence hget rhs e he ih =>
    exact (ih.trans (readPrimary_behind inner p.advance)).trans (advance_behind hop)
  | case4 done p => exact .refl p

theorem readChain_behind (table : PrecedenceTable) (inner : StreamReader σ Expr) (p : Parser σ) :
    (readChain table inner p).parser.Behind p :=
  Streamed.bind_behind (readPrimary_behind inner p) fun _ q => readLinks_behind table inner [] q

/-- The reader of expressions that may still open `levels` levels, its own included
    (`parse_expression`). -/
def expression (table : PrecedenceTable) : (levels : Nat) → StreamReader σ Expr
  | 0 => ⟨fun p => ⟨.error (.nestingTooDeep nestingLimit), p⟩, .refl⟩
  | levels + 1 => ⟨readChain table (expression table levels), readChain_behind table _⟩

/-- Reads an expression that is not inside another. -/
def readExpression (table : PrecedenceTable) (p : Parser σ) : Streamed σ Expr :=
  (expression table nestingLimit).read p

/-! ## Constructs -/

/-- Reads the next construct (`parse_next_construct`). -/
def readConstruct (table : PrecedenceTable) (p : Parser σ) : Streamed σ Construct :=
  match p.current with
  | none => ⟨.ok .endOfInput, p⟩
  | some (.symbol ';') => ⟨.ok .separator, p.advance⟩
  | some .define =>
    (readPrototype p.advance).bind fun proto p =>
      (readExpression table p).map fun body => .definition ⟨proto, body⟩
  | some .declare => (readPrototype p.advance).map .declaration
  | some _ => (readExpression table p).map fun body => .expression (.ofExpr body)

theorem readExpression_behind (table : PrecedenceTable) (p : Parser σ) :
    (readExpression table p).parser.Behind p :=
  (expression table nestingLimit).behind p

theorem readConstruct_behind (table : PrecedenceTable) (p : Parser σ) :
    (readConstruct table p).parser.Behind p := by
  unfold readConstruct
  split
  · exact .refl p
  · next hseparator => exact advance_behind hseparator
  · next hdefine =>
    refine Parser.Behind.trans ?_ (advance_behind hdefine)
    exact Streamed.bind_behind (readPrototype_behind p.advance) fun proto q =>
      readExpression_behind table q
  · next hdeclare => exact (readPrototype_behind p.advance).trans (advance_behind hdeclare)
  · exact readExpression_behind table p

/-- A chain that is read uses up a token. -/
theorem size_readChain_lt {table : PrecedenceTable} {inner : StreamReader σ Expr} {p : Parser σ}
    {e : Expr} (h : (readChain table inner p).result = .ok e) :
    (readChain table inner p).parser.size < p.size := by
  obtain ⟨first, hfirst, hrest⟩ := Streamed.bind_eq_ok h
  rcases readPrimary_cases inner p with hlt | hfault
  · rw [readChain, hrest]
    exact Nat.lt_of_le_of_lt (readLinks_behind table inner [] _).size_le hlt
  · rw [hfault] at hfirst
    simp [fault] at hfirst

/-- A construct that is read uses up a token, unless it is the end. -/
theorem size_readConstruct_lt {table : PrecedenceTable} {p : Parser σ} {t : Token} {c : Construct}
    (ht : p.current = some t) (h : (readConstruct table p).result = .ok c) :
    (readConstruct table p).parser.size < p.size := by
  revert h
  unfold readConstruct
  split <;> intro h
  · next hnone =>
    rw [ht] at hnone
    simp at hnone
  · exact size_advance_lt ht
  · refine Nat.lt_of_le_of_lt (Parser.Behind.size_le ?_) (size_advance_lt ht)
    exact Streamed.bind_behind (readPrototype_behind p.advance) fun proto q =>
      readExpression_behind table q
  · exact Nat.lt_of_le_of_lt (readPrototype_behind p.advance).size_le (size_advance_lt ht)
  · obtain ⟨body, hbody⟩ := Streamed.map_eq_ok h
    exact size_readChain_lt hbody

end Parser

end Formulary

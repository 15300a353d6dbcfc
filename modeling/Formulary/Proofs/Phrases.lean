import Formulary.Grammar.Expression
import Formulary.Proofs.Grouping

/-!
# Reading accepts exactly the phrases of the grammar

The grammar of expressions, with the operators of a table:

    expr    ::= primary (op primary)*
    primary ::= number | identifier | identifier '(' (expr (',' expr)*)? ')' | '(' expr ')'

`Phrase table n c e` says that the tokens `c` are an expression of this grammar in which at most
`n` expressions are nested, and that `e` is its tree. The reader takes the longest phrase: what is
left can begin neither with an operator nor, behind a bare identifier, with the parenthesis of a
call.

* `Phrase`, `PrimaryPhrase`, `LinkPhrases`, `ArgumentPhrases`: the grammar.
* `MayFollow`: what can stand behind a phrase that is read.
* `expression_sound`: what is read is a phrase.
* `Phrase.read`: a phrase is read.
* `readExpression_eq_ok_iff`: both together.
-/

namespace Formulary

/-! ## The grammar -/

mutual

/-- An expression with at most `n` expressions nested, itself counted: a chain of primaries, whose
    tree comes from splitting at the rightmost operator of least precedence. -/
inductive Phrase (table : PrecedenceTable) : Nat → List Token → Expr → Prop
  | chain {n : Nat} {c d : List Token} {first e : Expr} {links : List Link}
      (hfirst : PrimaryPhrase table n c first) (hlinks : LinkPhrases table n d links)
      (hgroup : Grouped first links e) : Phrase table (n + 1) (c ++ d) e

/-- A primary with at most `n` expressions nested in it. -/
inductive PrimaryPhrase (table : PrecedenceTable) : Nat → List Token → Expr → Prop
  | number {n : Nat} (x : Double) : PrimaryPhrase table n [.number x] (.number x)
  | var {n : Nat} (name : String) : PrimaryPhrase table n [.identifier name] (.var name)
  | callEmpty {n : Nat} (callee : String) :
      PrimaryPhrase table n [.identifier callee, .symbol '(', .symbol ')'] (.call callee [])
  | call {n : Nat} {c : List Token} {args : List Expr} (callee : String)
      (hargs : ArgumentPhrases table n c args) :
      PrimaryPhrase table n (.identifier callee :: .symbol '(' :: (c ++ [.symbol ')']))
        (.call callee args)
  | parens {n : Nat} {c : List Token} {e : Expr} (hinner : Phrase table n c e) :
      PrimaryPhrase table n (.symbol '(' :: (c ++ [.symbol ')'])) e

/-- Operators of the table, each with the primary behind it. -/
inductive LinkPhrases (table : PrecedenceTable) : Nat → List Token → List Link → Prop
  | nil {n : Nat} : LinkPhrases table n [] []
  | cons {n : Nat} {c d : List Token} {op : Char} {precedence : Int32} {operand : Expr}
      {links : List Link} (hop : table.get? op = some precedence)
      (hoperand : PrimaryPhrase table n c operand) (hlinks : LinkPhrases table n d links) :
      LinkPhrases table n (.symbol op :: (c ++ d)) (⟨op, precedence, operand⟩ :: links)

/-- One or more expressions parted by commas. -/
inductive ArgumentPhrases (table : PrecedenceTable) : Nat → List Token → List Expr → Prop
  | last {n : Nat} {c : List Token} {e : Expr} (harg : Phrase table n c e) :
      ArgumentPhrases table n c [e]
  | cons {n : Nat} {c d : List Token} {e : Expr} {args : List Expr} (harg : Phrase table n c e)
      (hargs : ArgumentPhrases table n d args) :
      ArgumentPhrases table n (c ++ .symbol ',' :: d) (e :: args)

end

/-- The last primary is a bare identifier: the others end in a number or a parenthesis. -/
def EndsInName (c : List Token) : Prop := ∃ name, c.getLast? = some (.identifier name)

/-- The tokens do not begin with an opening parenthesis. -/
def NotOpening (r : List Token) : Prop := ∀ rest, r ≠ .symbol '(' :: rest

/-- The tokens do not begin with an operator of the table. -/
def NotOperator (table : PrecedenceTable) (r : List Token) : Prop :=
  ∀ op rest, r = .symbol op :: rest → table.get? op = none

/-- The tokens `r` do not continue the phrase `c`. -/
structure MayFollow (table : PrecedenceTable) (c r : List Token) : Prop where
  notOperator : NotOperator table r
  notOpening : EndsInName c → NotOpening r

theorem notOperator_or_operator (table : PrecedenceTable) (tokens : List Token) :
    NotOperator table tokens ∨
      ∃ op rest precedence, tokens = .symbol op :: rest ∧ table.get? op = some precedence := by
  by_cases h : NotOperator table tokens
  · exact .inl h
  · simp only [NotOperator, not_forall] at h
    obtain ⟨op, rest, htokens, hop⟩ := h
    obtain ⟨precedence, hop⟩ := Option.ne_none_iff_exists'.mp hop
    exact .inr ⟨op, rest, precedence, htokens, hop⟩

theorem endsInName_append {c d : List Token} :
    EndsInName (c ++ d) ↔ EndsInName d ∨ d = [] ∧ EndsInName c := by
  unfold EndsInName
  cases d with
  | nil => simp
  | cons t d =>
    have h : ∃ last, (t :: d).getLast? = some last := ⟨_, List.getLast?_eq_some_getLast (by simp)⟩
    obtain ⟨last, hlast⟩ := h
    simp [List.getLast?_append, hlast]

theorem not_endsInName_symbol (c : List Token) (s : Char) : ¬ EndsInName (c ++ [.symbol s]) := by
  simp [EndsInName]

/-! ## Steps of the readers -/

namespace Parsed

variable {α β : Type}

theorem ok_inj {a b : α} {r s : List Token} : (ok a r : Parsed α) = ok b s ↔ a = b ∧ r = s := by
  simp [ok]

theorem fail_ne_ok (e : ParseError) (a : α) (r s : List Token) :
    (fail e r : Parsed α) ≠ ok a s := by
  simp [fail, ok]

theorem bind_eq_ok_iff {p : Parsed α} {next : α → List Token → Parsed β} {b : β} {r : List Token} :
    p.bind next = ok b r ↔ ∃ a rest, p = ok a rest ∧ next a rest = ok b r := by
  obtain ⟨result, rest⟩ := p
  cases result with
  | ok a => simp [bind, ok]
  | error e => simp [bind, ok, fail]

theorem map_eq_ok_iff {p : Parsed α} {f : α → β} {b : β} {r : List Token} :
    p.map f = ok b r ↔ ∃ a, p = ok a r ∧ f a = b := by
  unfold map
  rw [bind_eq_ok_iff]
  constructor
  · rintro ⟨a, rest, hp, h⟩
    obtain ⟨rfl, rfl⟩ := ok_inj.mp h
    exact ⟨a, hp, rfl⟩
  · rintro ⟨a, hp, rfl⟩
    exact ⟨a, r, hp, rfl⟩

end Parsed

theorem readArguments_of_close {inner : Reader Expr} {tokens rest : List Token} {arg : Expr}
    (done : List Expr) (h : inner.read tokens = .ok arg (.symbol ')' :: rest)) :
    readArguments inner done tokens = .ok (arg :: done).reverse rest := by
  have hresult : (inner.read tokens).result = .ok arg := by rw [h]; rfl
  have hrest : (inner.read tokens).rest = .symbol ')' :: rest := by rw [h]; rfl
  rw [readArguments]
  simp only [hresult]
  split <;> simp_all

theorem readArguments_of_comma {inner : Reader Expr} {tokens rest : List Token} {arg : Expr}
    (done : List Expr) (h : inner.read tokens = .ok arg (.symbol ',' :: rest)) :
    readArguments inner done tokens = readArguments inner (arg :: done) rest := by
  have hresult : (inner.read tokens).result = .ok arg := by rw [h]; rfl
  have hrest : (inner.read tokens).rest = .symbol ',' :: rest := by rw [h]; rfl
  rw [readArguments]
  simp only [hresult]
  split <;> simp_all

theorem readLinks_of_notOperator {table : PrecedenceTable} {tokens : List Token}
    (operand : Reader Expr) (done : List Link) (h : NotOperator table tokens) :
    readLinks table operand done tokens = .ok done.reverse tokens := by
  rw [readLinks.eq_def]
  split
  · next op rest => rw [h op rest rfl]
  · rfl

theorem readLinks_of_operator {table : PrecedenceTable} {operand : Reader Expr} {op : Char}
    {precedence : Int32} {rest rest' : List Token} {rhs : Expr} (done : List Link)
    (hop : table.get? op = some precedence) (h : operand.read rest = .ok rhs rest') :
    readLinks table operand done (.symbol op :: rest) =
      readLinks table operand (⟨op, precedence, rhs⟩ :: done) rest' := by
  rw [readLinks]
  simp [hop, h, Parsed.ok]

/-- Arguments go on behind a comma and end at a closing parenthesis. -/
theorem readArguments_eq_bind (inner : Reader Expr) (done : List Expr) (tokens : List Token) :
    readArguments inner done tokens = (inner.read tokens).bind fun arg rest =>
      match rest with
      | .symbol ')' :: rest => .ok (arg :: done).reverse rest
      | .symbol ',' :: rest => readArguments inner (arg :: done) rest
      | rest => .fail (faultAt .expectedArgumentSeparator rest) rest := by
  rw [readArguments, Parsed.bind]
  split
  · next e he => simp only [he]
  · next arg harg =>
    simp only [harg]
    split
    · next rest hrest => simp only [hrest]
    · next rest hrest => simp only [hrest]
    · next hclose hcomma =>
      split
      · next rest hrest => exact (hclose rest hrest).elim
      · next rest hrest => exact (hcomma rest hrest).elim
      · rfl

/-- An operator takes its operand, and the links go on behind it. -/
theorem readLinks_eq_bind {table : PrecedenceTable} {operand : Reader Expr} {op : Char}
    {precedence : Int32} (hop : table.get? op = some precedence) (done : List Link)
    (rest : List Token) :
    readLinks table operand done (.symbol op :: rest) = (operand.read rest).bind fun rhs rest =>
      readLinks table operand (⟨op, precedence, rhs⟩ :: done) rest := by
  rw [readLinks, Parsed.bind]
  simp only [hop]
  split
  · next e he => simp only [he]
  · next rhs hrhs => simp only [hrhs]

theorem PrecedenceTable.pos_of_get? {table : PrecedenceTable} {op : Char} {precedence : Int32}
    (h : table.get? op = some precedence) : 0 < precedence := by
  unfold get? at h
  have := (Option.filter_eq_some_iff.mp h).2
  simpa using this

theorem LinkPhrases.precedence_pos {table : PrecedenceTable} {n : Nat} {d : List Token}
    {links : List Link} : LinkPhrases table n d links → ∀ l ∈ links, 0 < l.precedence
  | .nil => by simp
  | .cons hop _ hlinks => by
    intro l hl
    rcases List.mem_cons.mp hl with rfl | hl
    · exact PrecedenceTable.pos_of_get? hop
    · exact hlinks.precedence_pos l hl

/-! ## What is read is a phrase -/

section Soundness

variable {table : PrecedenceTable} {n : Nat} {inner : Reader Expr}

/-- The reader takes only phrases with at most `n` expressions nested, and stops only in front of
    tokens that do not continue them. -/
def ReadsPhrases (table : PrecedenceTable) (n : Nat) (inner : Reader Expr) : Prop :=
  ∀ tokens e r, inner.read tokens = .ok e r →
    ∃ c, tokens = c ++ r ∧ Phrase table n c e ∧ MayFollow table c r

theorem readArguments_sound (hinner : ReadsPhrases table n inner) {done args : List Expr}
    {tokens r : List Token} (h : readArguments inner done tokens = .ok args r) :
    ∃ c more, tokens = c ++ .symbol ')' :: r ∧ args = done.reverse ++ more ∧
      ArgumentPhrases table n c more := by
  fun_induction readArguments inner done tokens with
  | case1 done tokens parsed e he => exact (Parsed.fail_ne_ok _ _ _ _ h).elim
  | case2 done tokens parsed arg harg rest hrest =>
    obtain ⟨rfl, rfl⟩ := Parsed.ok_inj.mp h
    obtain ⟨c, hc, hphrase, -⟩ := hinner tokens arg _ (congrArg₂ Parsed.mk harg hrest)
    exact ⟨c, [arg], hc, by simp, .last hphrase⟩
  | case3 done tokens parsed arg harg rest hrest ih =>
    obtain ⟨d, more, hd, hargs, hphrases⟩ := ih h
    obtain ⟨c, hc, hphrase, -⟩ := hinner tokens arg _ (congrArg₂ Parsed.mk harg hrest)
    refine ⟨c ++ .symbol ',' :: d, arg :: more, ?_, ?_, .cons hphrase hphrases⟩
    · rw [hc, hd, List.append_assoc, List.cons_append]
    · rw [hargs, List.reverse_cons, List.append_assoc, List.singleton_append]
  | case4 done tokens parsed arg harg => exact (Parsed.fail_ne_ok _ _ _ _ h).elim

theorem readCall_sound (hinner : ReadsPhrases table n inner) {callee : String}
    {tokens r : List Token} {e : Expr} (h : readCall inner callee tokens = .ok e r) :
    ∃ c, tokens = c ++ .symbol ')' :: r ∧
      PrimaryPhrase table n (.identifier callee :: .symbol '(' :: (c ++ [.symbol ')'])) e := by
  unfold readCall at h
  split at h
  · obtain ⟨rfl, rfl⟩ := Parsed.ok_inj.mp h
    exact ⟨[], rfl, .callEmpty callee⟩
  · exact (Parsed.fail_ne_ok _ _ _ _ h).elim
  · obtain ⟨args, hargs, rfl⟩ := Parsed.map_eq_ok_iff.mp h
    obtain ⟨c, more, hc, rfl, hphrases⟩ := readArguments_sound hinner hargs
    exact ⟨c, hc, .call callee hphrases⟩

theorem readPrimary_sound (hinner : ReadsPhrases table n inner) {tokens r : List Token} {e : Expr}
    (h : readPrimary inner tokens = .ok e r) :
    ∃ c, tokens = c ++ r ∧ PrimaryPhrase table n c e ∧ (EndsInName c → NotOpening r) := by
  unfold readPrimary at h
  split at h
  · next name rest =>
    unfold readReference at h
    split at h
    · next rest =>
      obtain ⟨c, hc, hphrase⟩ := readCall_sound hinner h
      refine ⟨_, by rw [hc]; simp, hphrase, fun hend => ?_⟩
      exact (not_endsInName_symbol (.identifier name :: .symbol '(' :: c) ')' hend).elim
    · exact (Parsed.fail_ne_ok _ _ _ _ h).elim
    · next hopen _ =>
      obtain ⟨rfl, rfl⟩ := Parsed.ok_inj.mp h
      exact ⟨[.identifier name], rfl, .var name, fun _ rest hr => hopen rest hr⟩
  · next x rest =>
    obtain ⟨rfl, rfl⟩ := Parsed.ok_inj.mp h
    exact ⟨[.number x], rfl, .number x, by simp [EndsInName]⟩
  · next rest =>
    obtain ⟨e', rest', hread, hclose⟩ := Parsed.bind_eq_ok_iff.mp h
    obtain ⟨c, hc, hphrase, -⟩ := hinner rest e' rest' hread
    unfold readClosing at hclose
    split at hclose
    · obtain ⟨rfl, rfl⟩ := Parsed.ok_inj.mp hclose
      refine ⟨_, by rw [hc]; simp, .parens hphrase, fun hend => ?_⟩
      exact (not_endsInName_symbol (.symbol '(' :: c) ')' hend).elim
    · exact (Parsed.fail_ne_ok _ _ _ _ hclose).elim
  · exact (Parsed.fail_ne_ok _ _ _ _ h).elim

theorem readLinks_sound (hinner : ReadsPhrases table n inner) {done links : List Link}
    {tokens r : List Token} (h : readLinks table (primary inner) done tokens = .ok links r) :
    ∃ d more, tokens = d ++ r ∧ links = done.reverse ++ more ∧ LinkPhrases table n d more ∧
      MayFollow table d r := by
  fun_induction readLinks table (primary inner) done tokens with
  | case1 done op rest hop =>
    obtain ⟨rfl, rfl⟩ := Parsed.ok_inj.mp h
    refine ⟨[], [], rfl, by simp, .nil, ⟨fun op' rest' heq => ?_, by simp [EndsInName]⟩⟩
    obtain ⟨hsym, -⟩ := List.cons.inj heq
    exact Token.symbol.inj hsym ▸ hop
  | case2 done op rest precedence hop parsed e he => exact (Parsed.fail_ne_ok _ _ _ _ h).elim
  | case3 done op rest precedence hop parsed rhs hrhs ih =>
    obtain ⟨d, more, hd, hlinks, hphrases, hfollow⟩ := ih h
    have hread : (primary inner).read rest = .ok rhs parsed.rest := congrArg₂ Parsed.mk hrhs rfl
    obtain ⟨c, hc, hphrase, hopen⟩ := readPrimary_sound hinner hread
    refine ⟨.symbol op :: (c ++ d), ⟨op, precedence, rhs⟩ :: more, ?_, ?_,
      .cons hop hphrase hphrases, ⟨hfollow.notOperator, fun hend => ?_⟩⟩
    · rw [hc, hd, List.cons_append, List.append_assoc]
    · rw [hlinks, List.reverse_cons, List.append_assoc, List.singleton_append]
    · rw [← List.singleton_append, endsInName_append, endsInName_append] at hend
      rcases hend with (hend | ⟨rfl, hend⟩) | ⟨-, hend⟩
      · exact hfollow.notOpening hend
      · rw [List.nil_append] at hd
        exact hd ▸ hopen hend
      · simp [EndsInName] at hend
  | case4 done tokens hsymbol =>
    obtain ⟨rfl, rfl⟩ := Parsed.ok_inj.mp h
    exact ⟨[], [], rfl, by simp, .nil, ⟨fun op rest heq => (hsymbol op rest heq).elim,
      by simp [EndsInName]⟩⟩

theorem chain_sound (hinner : ReadsPhrases table n inner) :
    ReadsPhrases table (n + 1) (chain table (primary inner)) := by
  intro tokens e r h
  change readChain table (primary inner) tokens = .ok e r at h
  unfold readChain at h
  obtain ⟨first, rest, hfirst, hrest⟩ := Parsed.bind_eq_ok_iff.mp h
  obtain ⟨links, hlinks, rfl⟩ := Parsed.map_eq_ok_iff.mp hrest
  obtain ⟨c, hc, hprimary, hopen⟩ := readPrimary_sound hinner hfirst
  obtain ⟨d, more, hd, rfl, hphrases, hfollow⟩ := readLinks_sound hinner hlinks
  refine ⟨c ++ d, by rw [hc, hd, List.append_assoc],
    .chain hprimary hphrases (groupChain_grouped hphrases.precedence_pos),
    ⟨hfollow.notOperator, fun hend => ?_⟩⟩
  rcases endsInName_append.mp hend with hlast | ⟨rfl, hlast⟩
  · exact hfollow.notOpening hlast
  · rw [List.nil_append] at hd
    exact hd ▸ hopen hlast

/-- What is read with `n` levels is a phrase with at most `n` expressions nested. -/
theorem expression_sound (table : PrecedenceTable) (n : Nat) :
    ReadsPhrases table n (expression table n) := by
  induction n with
  | zero =>
    intro tokens e r h
    exact (Parsed.fail_ne_ok _ _ _ _ h).elim
  | succ n ih => exact chain_sound ih

end Soundness

/-! ## Phrases are read -/

section Completeness

variable {table : PrecedenceTable}

/-- The punctuation of calls and parentheses is not among the operators of the table. -/
structure PrecedenceTable.SparesPunctuation (table : PrecedenceTable) : Prop where
  opening : table.get? '(' = none
  closing : table.get? ')' = none
  comma : table.get? ',' = none

/-- The tokens do not begin with a refused number. -/
def NotMalformed (r : List Token) : Prop := ∀ text rest, r ≠ .malformed text :: rest

/-- A token that is no operator ends every phrase, unless it opens a call. -/
theorem mayFollow_symbol {s : Char} (hop : table.get? s = none) (hs : s ≠ '(')
    (c rest : List Token) : MayFollow table c (.symbol s :: rest) := by
  refine ⟨fun op rest' h => ?_, fun _ rest' h => ?_⟩
  · obtain ⟨hsym, -⟩ := List.cons.inj h
    exact Token.symbol.inj hsym ▸ hop
  · obtain ⟨hsym, -⟩ := List.cons.inj h
    exact hs (Token.symbol.inj hsym)

theorem notMalformed_symbol (s : Char) (rest : List Token) : NotMalformed (.symbol s :: rest) := by
  simp [NotMalformed]

/-- A primary begins with a token that neither closes an argument list nor is refused. -/
theorem PrimaryPhrase.head {n : Nat} {c : List Token} {e : Expr} :
    PrimaryPhrase table n c e → ∃ t rest, c = t :: rest ∧ t ≠ .symbol ')' ∧ t.isSound = true
  | .number x => ⟨_, _, rfl, by simp, rfl⟩
  | .var name => ⟨_, _, rfl, by simp, rfl⟩
  | .callEmpty callee => ⟨_, _, rfl, by simp, rfl⟩
  | .call callee _ => ⟨_, _, rfl, by simp, rfl⟩
  | .parens _ => ⟨_, _, rfl, by simp, rfl⟩

theorem Phrase.head {n : Nat} {c : List Token} {e : Expr} :
    Phrase table n c e → ∃ t rest, c = t :: rest ∧ t ≠ .symbol ')' ∧ t.isSound = true
  | .chain hfirst _ _ => by
    obtain ⟨t, rest, rfl, ht⟩ := hfirst.head
    exact ⟨t, rest ++ _, rfl, ht⟩

theorem ArgumentPhrases.head {n : Nat} {c : List Token} {args : List Expr} :
    ArgumentPhrases table n c args → ∃ t rest, c = t :: rest ∧ t ≠ .symbol ')' ∧ t.isSound = true
  | .last harg => harg.head
  | .cons harg _ => by
    obtain ⟨t, rest, rfl, ht⟩ := harg.head
    exact ⟨t, rest ++ _, rfl, ht⟩

theorem readCall_of_head {inner : Reader Expr} {callee : String} {t : Token} {rest : List Token}
    (hclose : t ≠ .symbol ')') (hsound : t.isSound = true) :
    readCall inner callee (t :: rest) =
      (readArguments inner [] (t :: rest)).map (.call callee) := by
  unfold readCall
  split
  · next h => exact (hclose (List.cons.inj h).1).elim
  · next h =>
    rw [(List.cons.inj h).1] at hsound
    exact absurd hsound (by simp [Token.isSound])
  · rfl

theorem readReference_of_notOpening {inner : Reader Expr} {name : String} {r : List Token}
    (hopen : NotOpening r) (hsound : NotMalformed r) :
    readReference inner name r = .ok (.var name) r := by
  unfold readReference
  split
  · next rest => exact (hopen rest rfl).elim
  · next text rest => exact (hsound text rest rfl).elim
  · rfl

/-- A chain of links begins with an operator, if it is not empty. -/
theorem LinkPhrases.notOpening {n : Nat} {d r : List Token} {links : List Link}
    (htable : table.SparesPunctuation) (hr : d = [] → NotOpening r) :
    LinkPhrases table n d links → NotOpening (d ++ r)
  | .nil => hr rfl
  | .cons hop _ _ => by
    intro rest h
    obtain ⟨hsym, -⟩ := List.cons.inj h
    rw [Token.symbol.inj hsym, htable.opening] at hop
    simp at hop

theorem LinkPhrases.notMalformed {n : Nat} {d r : List Token} {links : List Link}
    (hr : NotMalformed r) : LinkPhrases table n d links → NotMalformed (d ++ r)
  | .nil => hr
  | .cons _ _ _ => notMalformed_symbol _ _

-- The induction is on the derivation; every reader is run on the phrase with any tokens `r`
-- behind it that do not continue it.
mutual

/-- A phrase with at most `n` expressions nested is read with `n` levels. -/
theorem Phrase.read (htable : table.SparesPunctuation) {n : Nat} {c : List Token} {e : Expr} :
    Phrase table n c e → ∀ r, MayFollow table c r → NotMalformed r →
      (expression table n).read (c ++ r) = .ok e r
  | .chain (n := n) (c := c) (d := d) hfirst hlinks hgroup => by
    intro r hfollow hsound
    have hopen : EndsInName c → NotOpening (d ++ r) := by
      intro hend
      apply hlinks.notOpening htable
      intro hd
      exact hfollow.notOpening (endsInName_append.mpr (.inr ⟨hd, hend⟩))
    have hread := hfirst.read htable (d ++ r) hopen (hlinks.notMalformed hsound)
    have hfollow' : MayFollow table d r :=
      ⟨hfollow.notOperator, fun hend => hfollow.notOpening (endsInName_append.mpr (.inl hend))⟩
    have hmore := hlinks.read htable [] r hfollow' hsound
    show readChain table (primary (expression table n)) (c ++ d ++ r) = .ok e r
    unfold readChain
    rw [List.append_assoc, Parsed.bind_eq_ok_iff]
    refine ⟨_, _, hread, Parsed.map_eq_ok_iff.mpr ⟨_, hmore, ?_⟩⟩
    exact (groupChain_eq_iff hlinks.precedence_pos).mpr hgroup

theorem PrimaryPhrase.read (htable : table.SparesPunctuation) {n : Nat} {c : List Token}
    {e : Expr} :
    PrimaryPhrase table n c e → ∀ r, (EndsInName c → NotOpening r) → NotMalformed r →
      (primary (expression table n)).read (c ++ r) = .ok e r
  | .number x => fun r _ _ => rfl
  | .var name => fun r hopen hsound =>
    readReference_of_notOpening (hopen ⟨name, rfl⟩) hsound
  | .callEmpty callee => fun r _ _ => rfl
  | .call (n := n) (c := c) callee hargs => by
    intro r _ _
    obtain ⟨t, rest, hc, hclose, hsound⟩ := hargs.head
    have hread := hargs.read htable [] r
    show readCall (expression table n) callee (c ++ [.symbol ')'] ++ r) = _
    rw [List.append_assoc, List.singleton_append, hc, List.cons_append,
      readCall_of_head hclose hsound, ← List.cons_append, ← hc, hread]
    rfl
  | .parens (n := n) (c := c) (e := e) hinner => by
    intro r _ _
    have hread := hinner.read htable (.symbol ')' :: r)
      (mayFollow_symbol htable.closing (by decide) c r) (notMalformed_symbol _ _)
    show ((expression table n).read (c ++ [.symbol ')'] ++ r)).bind readClosing = _
    rw [List.append_assoc, List.singleton_append, hread]
    rfl

theorem LinkPhrases.read (htable : table.SparesPunctuation) {n : Nat} {d : List Token}
    {links : List Link} : LinkPhrases table n d links → ∀ done r, MayFollow table d r →
      NotMalformed r → readLinks table (primary (expression table n)) done (d ++ r) =
        .ok (done.reverse ++ links) r
  | .nil => fun done r hfollow _ => by
    rw [List.nil_append, readLinks_of_notOperator _ _ hfollow.notOperator, List.append_nil]
  | .cons (n := n) (c := c) (d := d) hop hoperand hlinks => by
    intro done r hfollow hsound
    have hopen : EndsInName c → NotOpening (d ++ r) := fun hend =>
      hlinks.notOpening htable fun hd => hfollow.notOpening
        (endsInName_append (c := [.symbol _]).mpr (.inl (endsInName_append.mpr (.inr ⟨hd, hend⟩))))
    have hread := hoperand.read htable (d ++ r) hopen (hlinks.notMalformed hsound)
    rw [List.cons_append, List.append_assoc, readLinks_of_operator done hop hread,
      hlinks.read htable _ r ⟨hfollow.notOperator, fun hend => hfollow.notOpening
        (endsInName_append (c := .symbol _ :: c).mpr (.inl hend))⟩ hsound]
    rw [List.reverse_cons, List.append_assoc, List.singleton_append]

theorem ArgumentPhrases.read (htable : table.SparesPunctuation) {n : Nat} {c : List Token}
    {args : List Expr} : ArgumentPhrases table n c args → ∀ done r,
      readArguments (expression table n) done (c ++ .symbol ')' :: r) =
        .ok (done.reverse ++ args) r
  | .last (c := c) harg => by
    intro done r
    have hread := harg.read htable (.symbol ')' :: r)
      (mayFollow_symbol htable.closing (by decide) c r) (notMalformed_symbol _ _)
    rw [readArguments_of_close done hread, List.reverse_cons]
  | .cons (c := c) (d := d) harg hargs => by
    intro done r
    have hread := harg.read htable (.symbol ',' :: (d ++ .symbol ')' :: r))
      (mayFollow_symbol htable.comma (by decide) c _) (notMalformed_symbol _ _)
    rw [List.append_assoc, List.cons_append, readArguments_of_comma done hread,
      hargs.read htable _ r, List.reverse_cons, List.append_assoc, List.singleton_append]

end

end Completeness

/-- An expression is read from the front of tokens without refused numbers exactly when the tokens
    begin with a phrase in which at most `nestingLimit` expressions are nested, it is the tree of
    this phrase, and what is left begins neither with an operator nor, behind a bare identifier,
    with an opening parenthesis. -/
theorem readExpression_eq_ok_iff {table : PrecedenceTable} (htable : table.SparesPunctuation)
    {tokens : List Token} (hsound : ∀ t ∈ tokens, t.isSound = true) (e : Expr) (r : List Token) :
    readExpression table tokens = .ok e r ↔
      ∃ c, tokens = c ++ r ∧ Phrase table nestingLimit c e ∧ MayFollow table c r := by
  constructor
  · exact expression_sound table nestingLimit tokens e r
  · rintro ⟨c, rfl, hphrase, hfollow⟩
    refine hphrase.read htable r hfollow ?_
    rintro text rest rfl
    have := hsound (.malformed text) (by simp)
    simp [Token.isSound] at this

/-- The tokens `a - b - (c) ;` are read as `(a - b) - c`, up to the semicolon. -/
theorem readExpression_subtractions :
    PrecedenceTable.standard.SparesPunctuation ∧
      readExpression .standard [.identifier "a", .symbol '-', .identifier "b", .symbol '-',
          .symbol '(', .identifier "c", .symbol ')', .symbol ';'] =
        .ok (.binary '-' (.binary '-' (.var "a") (.var "b")) (.var "c")) [.symbol ';'] := by
  have htable : PrecedenceTable.standard.SparesPunctuation := ⟨by decide, by decide, by decide⟩
  refine ⟨htable, (readExpression_eq_ok_iff htable (by decide) _ _).mpr
    ⟨[.identifier "a", .symbol '-', .identifier "b", .symbol '-', .symbol '(', .identifier "c",
      .symbol ')'], rfl, ?_, ?_⟩⟩
  · have hc : Phrase .standard 255 [.identifier "c"] (.var "c") :=
      .chain (.var "c") .nil (.single _)
    have hlinks : LinkPhrases .standard 255 [.symbol '-', .identifier "b", .symbol '-', .symbol '(',
        .identifier "c", .symbol ')'] [⟨'-', 20, .var "b"⟩, ⟨'-', 20, .var "c"⟩] :=
      .cons (by decide) (.var "b") (.cons (by decide) (.parens hc) .nil)
    have hleft : Grouped (.var "a") [⟨'-', 20, .var "b"⟩] (.binary '-' (.var "a") (.var "b")) :=
      @Grouped.split _ _ _ [] [] ⟨'-', 20, .var "b"⟩ (by simp) (by simp) (.single _) (.single _)
    exact .chain (.var "a") hlinks
      (@Grouped.split _ _ _ [_] [] ⟨'-', 20, .var "c"⟩ (by simp) (by simp) hleft (.single _))
  · exact mayFollow_symbol (by decide) (by decide) _ _

end Formulary

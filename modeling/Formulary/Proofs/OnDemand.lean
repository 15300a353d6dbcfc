import Formulary.Proofs.Causality
import Formulary.Proofs.Phrases
import Formulary.Session.Driver

/-!
# Reading on demand is reading all at once

A lexer that asks a source for characters reads what a cursor in the text of the source reads, and
has asked as often as the cursor has counted. A parser that asks for tokens reads what the readers
of lists read from all the tokens of the text. So a driver takes the steps of the session of the
text, and when it has a token in sight it has asked for as many characters as that token takes.

* `Lexer.Follows`: a lexer at the place of a cursor; `Lexer.Follows.next`.
* `Streamed.Matches`: outcomes on demand and on lists of tokens that agree; one lemma for each
  reader, up to `Parser.readConstruct_matches`.
* `Parser.Faces`: a parser with tokens of a text ahead; `Parser.faces_presents`.
* `Driver.Drives`: a driver in the place of a session; `Driver.Drives.observe` for whole runs.
-/

namespace Formulary

variable {σ α β : Type} [CharSource σ]

/-! ## Sources -/

namespace CharSource

theorem next_cases (s : σ) :
    (∃ s', next s = (none, s') ∧ chars s = []) ∨
      ∃ c s', next s = (some c, s') ∧ chars s = c :: chars s' := by
  rcases hnext : next s with ⟨c?, s'⟩
  cases c? with
  | none => exact .inl ⟨s', rfl, chars_of_none hnext⟩
  | some c => exact .inr ⟨c, s', rfl, chars_of_some hnext⟩

theorem chars_list (text : List Char) : chars text = text := by
  induction text with
  | nil => exact chars_of_none rfl
  | cons c text ih =>
    have hnext : next (c :: text) = (some c, text) := rfl
    rw [chars_of_some hnext, ih]

/-- The characters are handed out in order, and then an end. -/
theorem next_after (s : σ) {calls : Nat} (h : calls ≤ (chars s).length) :
    (next (after s calls)).1 = (chars s)[calls]? := by
  induction calls generalizing s with
  | zero =>
    rcases next_cases s with ⟨s', hnext, hchars⟩ | ⟨c, s', hnext, hchars⟩ <;>
      simp [after, hnext, hchars]
  | succ calls ih =>
    rcases next_cases s with ⟨s', hnext, hchars⟩ | ⟨c, s', hnext, hchars⟩
    · simp [hchars] at h
    · rw [hchars, List.length_cons] at h
      rw [after, hnext, hchars, List.getElem?_cons_succ]
      exact ih s' (Nat.le_of_succ_le_succ h)

theorem after_succ (s : σ) (calls : Nat) : after s (calls + 1) = (next (after s calls)).2 := by
  induction calls generalizing s with
  | zero => rfl
  | succ calls ih => exact ih (next s).2

end CharSource

/-! ## Lexers -/

namespace Lexer

/-- The lexer of the source is at the place of the cursor: it holds the same character, the source
    has been asked as often as the cursor says and has the other characters ahead. -/
structure Follows (strict : Bool) (source : σ) (l : Lexer σ) (c : Cursor) : Prop where
  source : l.source = CharSource.after source c.asked
  hand : l.hand = c.pending.head?
  ahead : c.pending ≠ [] → CharSource.chars l.source = c.pending.tail
  strict : l.strict = strict

variable {strict : Bool} {source : σ} {l : Lexer σ} {pending : List Char} {asked : Nat}

theorem follows_start (strict : Bool) (source : σ) :
    (start strict source).Follows strict source (.start (CharSource.chars source)) :=
  ⟨rfl, rfl, fun _ => rfl, rfl⟩

/-- To use the character in the hand is to go on by one character. -/
theorem Follows.use {x : Char} (h : l.Follows strict source ⟨x :: pending, asked⟩) :
    l.use.Follows strict source ⟨pending, asked + 1⟩ := by
  have hahead : CharSource.chars l.source = pending := h.ahead (by simp)
  have hsource : l.use.source = CharSource.after source (asked + 1) := by
    rw [CharSource.after_succ, ← h.source]
    rfl
  rcases CharSource.next_cases l.source with ⟨s', hnext, hchars⟩ | ⟨c, s', hnext, hchars⟩
  · obtain rfl : pending = [] := hahead.symm.trans hchars
    refine ⟨hsource, ?_, by simp, h.strict⟩
    simp [Lexer.use, hnext]
  · obtain rfl : pending = c :: CharSource.chars s' := hahead.symm.trans hchars
    refine ⟨hsource, ?_, fun _ => ?_, h.strict⟩ <;> simp [Lexer.use, hnext]

theorem Follows.skipGapFrom (h : l.Follows strict source ⟨pending, asked⟩) (inComment : Bool) :
    (l.skipGapFrom inComment).Follows strict source
      (Cursor.skipGapFrom inComment asked pending) := by
  induction pending generalizing l asked inComment with
  | nil =>
    rw [skipGapFrom_of_none h.hand]
    exact h
  | cons x pending ih =>
    rw [skipGapFrom_of_some h.hand, Cursor.skipGapFrom]
    split_ifs
    · exact ih h.use _
    · exact ih h.use _
    · exact ih h.use _
    · exact h

theorem Follows.spanOnto (h : l.Follows strict source ⟨pending, asked⟩) (p : Char → Bool)
    (taken : List Char) :
    (l.spanOnto p taken).1 = (Cursor.spanOnto p taken asked pending).1 ∧
      (l.spanOnto p taken).2.Follows strict source (Cursor.spanOnto p taken asked pending).2 := by
  induction pending generalizing l asked taken with
  | nil =>
    rw [spanOnto_of_none h.hand]
    exact ⟨rfl, h⟩
  | cons x pending ih =>
    rw [spanOnto_of_some h.hand, Cursor.spanOnto]
    split_ifs
    · exact ih h.use _
    · exact ⟨rfl, h⟩

/-- The lexer reads the token that the cursor reads. -/
theorem Follows.next {c : Cursor} (h : l.Follows strict source c) :
    l.next.1 = (c.next strict).1 ∧ l.next.2.Follows strict source (c.next strict).2 := by
  have hgap : l.skipGap.Follows strict source c.skipGap := h.skipGapFrom false
  simp only [Lexer.next, Cursor.next, hgap.hand]
  rcases hpending : c.skipGap.pending with _ | ⟨x, rest⟩
  · exact ⟨rfl, hgap⟩
  · simp only [List.head?_cons]
    split_ifs
    · obtain ⟨hword, hafter⟩ := hgap.spanOnto Char.isAlphanum []
      exact ⟨congrArg (fun word => some (Token.ofWord word)) hword, hafter⟩
    · obtain ⟨htext, hafter⟩ := hgap.spanOnto isNumeric []
      refine ⟨?_, hafter⟩
      simp only [Lexer.span, Cursor.span]
      rw [hafter.strict, htext]
      rfl
    · have hcursor : c.skipGap = ⟨x :: rest, c.skipGap.asked⟩ := by rw [← hpending]
      rw [hcursor] at hgap
      exact ⟨rfl, hgap.use⟩

end Lexer

/-! ## Readers -/

/-- Of each pair, the tokens begin with the one that is in sight, and the parser that has used it
    goes with the tokens behind it. -/
structure Parser.Presents (R : Parser σ → List Token → Prop) : Prop where
  head : ∀ {p tokens}, R p tokens → p.current = tokens.head?
  advance : ∀ {p tokens}, R p tokens → R p.advance tokens.tail

/-- The outcome on demand is the outcome on a list of tokens, and the parser goes with the tokens
    that are left. -/
structure Streamed.Matches (R : Parser σ → List Token → Prop) (s : Streamed σ α) (q : Parsed α) :
    Prop where
  result : s.result = q.result
  parser : R s.parser q.rest

/-- The reader on demand reads what the reader of lists reads. -/
def StreamReader.Matches (R : Parser σ → List Token → Prop) (s : StreamReader σ α)
    (r : Reader α) : Prop :=
  ∀ p tokens, R p tokens → (s.read p).Matches R (r.read tokens)

section Readers

variable {R : Parser σ → List Token → Prop} {p : Parser σ} {tokens : List Token}

omit [CharSource σ] in
theorem Streamed.Matches.of_result {s : Streamed σ α} {q : Parsed α} (h : s.Matches R q)
    {result : Except ParseError α} (hresult : s.result = result) :
    ∃ left, q = ⟨result, left⟩ ∧ R s.parser left := by
  subst hresult
  exact ⟨q.rest, by rw [h.result], h.parser⟩

omit [CharSource σ] in
theorem Streamed.Matches.map {s : Streamed σ α} {q : Parsed α} (h : s.Matches R q) (f : α → β) :
    (s.map f).Matches R (q.map f) := by
  obtain ⟨result, rest⟩ := q
  obtain ⟨result', parser⟩ := s
  obtain ⟨rfl, hparser⟩ := h
  cases result' with
  | ok a => exact ⟨rfl, hparser⟩
  | error e => exact ⟨rfl, hparser⟩

omit [CharSource σ] in
theorem Streamed.Matches.bind {s : Streamed σ α} {q : Parsed α} (h : s.Matches R q)
    {next : α → Parser σ → Streamed σ β} {next' : α → List Token → Parsed β}
    (hnext : ∀ a p tokens, R p tokens → (next a p).Matches R (next' a tokens)) :
    (s.bind next).Matches R (q.bind next') := by
  obtain ⟨result, rest⟩ := q
  obtain ⟨result', parser⟩ := s
  obtain ⟨rfl, hparser⟩ := h
  cases result' with
  | ok a => exact hnext a parser rest hparser
  | error e => exact ⟨rfl, hparser⟩

namespace Parser

variable (hR : Presents R)

include hR

theorem Presents.of_current {t : Token} (h : R p tokens) (ht : p.current = some t) :
    ∃ rest, tokens = t :: rest ∧ R p.advance rest := by
  obtain ⟨rest, rfl⟩ := List.head?_eq_some_iff.mp ((hR.head h).symm.trans ht)
  exact ⟨rest, rfl, hR.advance h⟩

theorem fault_matches (h : R p tokens) (expected : ParseError) :
    (p.fault expected : Streamed σ α).Matches R (.fail (faultAt expected tokens) tokens) := by
  refine ⟨?_, h⟩
  simp only [fault, hR.head h]
  cases tokens with
  | nil => rfl
  | cons t rest => cases t <;> rfl

theorem readParams_matches (h : R p tokens) (done : List String) :
    (p.readParams done).Matches R (Formulary.readParams done tokens) := by
  fun_induction readParams done p generalizing tokens with
  | case1 done p name hname ih =>
    obtain ⟨rest, rfl, hrest⟩ := hR.of_current h hname
    exact ih hrest
  | case2 done p hclose =>
    obtain ⟨rest, rfl, hrest⟩ := hR.of_current h hclose
    exact ⟨rfl, hrest⟩
  | case3 done p hname hclose =>
    unfold Formulary.readParams
    split
    · exact (hname _ (hR.head h)).elim
    · exact (hclose (hR.head h)).elim
    · exact fault_matches hR h _

theorem readSignature_matches (h : R p tokens) (name : String) :
    (p.readSignature name).Matches R (Formulary.readSignature name tokens) := by
  unfold readSignature
  split
  · next hopen =>
    obtain ⟨rest, rfl, hrest⟩ := hR.of_current h hopen
    exact (readParams_matches hR hrest []).map _
  · next hopen =>
    unfold Formulary.readSignature
    split
    · exact (hopen (hR.head h)).elim
    · exact fault_matches hR h _

theorem readPrototype_matches (h : R p tokens) :
    p.readPrototype.Matches R (Formulary.readPrototype tokens) := by
  unfold readPrototype
  split
  · next name hname =>
    obtain ⟨rest, rfl, hrest⟩ := hR.of_current h hname
    exact readSignature_matches hR hrest name
  · next hname =>
    unfold Formulary.readPrototype
    split
    · exact (hname _ (hR.head h)).elim
    · exact fault_matches hR h _

section Expressions

variable {table : PrecedenceTable} {inner : StreamReader σ Expr} {inner' : Reader Expr}
variable (hinner : inner.Matches R inner')

include hinner

theorem readArguments_matches (h : R p tokens) (done : List Expr) :
    (p.readArguments inner done).Matches R (Formulary.readArguments inner' done tokens) := by
  fun_induction readArguments inner done p generalizing tokens
  case case1 done p arg e he =>
    obtain ⟨left, hread, hleft⟩ := (hinner p tokens h).of_result he
    rw [readArguments_eq_bind, hread]
    exact ⟨rfl, hleft⟩
  case case2 done p arg e he hclose =>
    obtain ⟨left, hread, hleft⟩ := (hinner p tokens h).of_result he
    obtain ⟨rest, rfl, hrest⟩ := hR.of_current hleft hclose
    rw [readArguments_eq_bind, hread]
    exact ⟨rfl, hrest⟩
  case case3 done p arg e he hcomma ih =>
    obtain ⟨left, hread, hleft⟩ := (hinner p tokens h).of_result he
    obtain ⟨rest, rfl, hrest⟩ := hR.of_current hleft hcomma
    rw [readArguments_eq_bind, hread]
    exact ih hrest
  case case4 done p arg e he hclose hcomma =>
    obtain ⟨left, hread, hleft⟩ := (hinner p tokens h).of_result he
    rw [readArguments_eq_bind, hread]
    simp only [Parsed.bind]
    split
    · exact (hclose (hR.head hleft)).elim
    · exact (hcomma (hR.head hleft)).elim
    · exact fault_matches hR hleft _

theorem readCall_matches (h : R p tokens) (callee : String) :
    (p.readCall inner callee).Matches R (Formulary.readCall inner' callee tokens) := by
  unfold readCall
  split
  · next hclose =>
    obtain ⟨rest, rfl, hrest⟩ := hR.of_current h hclose
    exact ⟨rfl, hrest⟩
  · next text htext =>
    obtain ⟨rest, rfl, -⟩ := hR.of_current h htext
    exact ⟨rfl, h⟩
  · next hclose htext =>
    unfold Formulary.readCall
    split
    · exact (hclose (hR.head h)).elim
    · exact (htext _ (hR.head h)).elim
    · exact (readArguments_matches hR hinner h []).map _

theorem readReference_matches (h : R p tokens) (name : String) :
    (p.readReference inner name).Matches R (Formulary.readReference inner' name tokens) := by
  unfold readReference
  split
  · next hopen =>
    obtain ⟨rest, rfl, hrest⟩ := hR.of_current h hopen
    exact readCall_matches hR hinner hrest name
  · next text htext =>
    obtain ⟨rest, rfl, -⟩ := hR.of_current h htext
    exact ⟨rfl, h⟩
  · next hopen htext =>
    unfold Formulary.readReference
    split
    · exact (hopen (hR.head h)).elim
    · exact (htext _ (hR.head h)).elim
    · exact ⟨rfl, h⟩

omit hinner in
theorem readClosing_matches (h : R p tokens) (e : Expr) :
    (p.readClosing e).Matches R (Formulary.readClosing e tokens) := by
  unfold readClosing
  split
  · next hclose =>
    obtain ⟨rest, rfl, hrest⟩ := hR.of_current h hclose
    exact ⟨rfl, hrest⟩
  · next hclose =>
    unfold Formulary.readClosing
    split
    · exact (hclose (hR.head h)).elim
    · exact fault_matches hR h _

theorem readPrimary_matches (h : R p tokens) :
    (p.readPrimary inner).Matches R (Formulary.readPrimary inner' tokens) := by
  unfold readPrimary
  split
  · next name hname =>
    obtain ⟨rest, rfl, hrest⟩ := hR.of_current h hname
    exact readReference_matches hR hinner hrest name
  · next x hx =>
    obtain ⟨rest, rfl, hrest⟩ := hR.of_current h hx
    exact ⟨rfl, hrest⟩
  · next hopen =>
    obtain ⟨rest, rfl, hrest⟩ := hR.of_current h hopen
    exact (hinner p.advance rest hrest).bind fun e q left hleft => readClosing_matches hR hleft e
  · next hname hx hopen =>
    unfold Formulary.readPrimary
    split
    · exact (hname _ (hR.head h)).elim
    · exact (hx _ (hR.head h)).elim
    · exact (hopen (hR.head h)).elim
    · exact fault_matches hR h _

theorem readLinks_matches (h : R p tokens) (done : List Link) :
    (p.readLinks table inner done).Matches R
      (Formulary.readLinks table (primary inner') done tokens) := by
  fun_induction readLinks table inner done p generalizing tokens
  case case1 done p op hop hget =>
    obtain ⟨rest, rfl, -⟩ := hR.of_current h hop
    have hnot : NotOperator table (.symbol op :: rest) := by
      rintro op' rest' heq
      obtain ⟨heq, -⟩ := List.cons.inj heq
      rw [← Token.symbol.inj heq]
      exact hget
    rw [readLinks_of_notOperator _ done hnot]
    exact ⟨rfl, h⟩
  case case2 done p op hop precedence hget rhs e he =>
    obtain ⟨rest, rfl, hrest⟩ := hR.of_current h hop
    obtain ⟨left, hread, hleft⟩ := (readPrimary_matches hR hinner hrest).of_result he
    rw [readLinks_eq_bind hget]
    show Streamed.Matches R _ (Parsed.bind (Formulary.readPrimary inner' rest) _)
    rw [hread]
    exact ⟨rfl, hleft⟩
  case case3 done p op hop precedence hget rhs e he ih =>
    obtain ⟨rest, rfl, hrest⟩ := hR.of_current h hop
    obtain ⟨left, hread, hleft⟩ := (readPrimary_matches hR hinner hrest).of_result he
    rw [readLinks_eq_bind hget]
    show Streamed.Matches R _ (Parsed.bind (Formulary.readPrimary inner' rest) _)
    rw [hread]
    exact ih hleft
  case case4 done p hop =>
    have hnot : NotOperator table tokens := by
      rintro op rest rfl
      exact (hop op (hR.head h)).elim
    rw [readLinks_of_notOperator _ done hnot]
    exact ⟨rfl, h⟩

theorem readChain_matches (h : R p tokens) :
    (p.readChain table inner).Matches R
      (Formulary.readChain table (primary inner') tokens) :=
  (readPrimary_matches hR hinner h).bind fun _ _ _ hrest =>
    (readLinks_matches hR hinner hrest []).map _

end Expressions

theorem expression_matches (table : PrecedenceTable) (levels : Nat) :
    (expression table levels).Matches R (Formulary.expression table levels) := by
  induction levels with
  | zero => exact fun p tokens h => ⟨rfl, h⟩
  | succ levels ih => exact fun p tokens h => readChain_matches hR ih h

/-- A construct that is read on demand is the one that is read from all the tokens. -/
theorem readConstruct_matches (table : PrecedenceTable) (h : R p tokens) :
    (p.readConstruct table).Matches R (Formulary.readConstruct table tokens) := by
  unfold readConstruct
  split
  · next hend =>
    obtain rfl : tokens = [] := List.head?_eq_none_iff.mp ((hR.head h).symm.trans hend)
    exact ⟨rfl, h⟩
  · next hseparator =>
    obtain ⟨rest, rfl, hrest⟩ := hR.of_current h hseparator
    exact ⟨rfl, hrest⟩
  · next hdefine =>
    obtain ⟨rest, rfl, hrest⟩ := hR.of_current h hdefine
    rw [Formulary.readConstruct]
    refine (readPrototype_matches hR hrest).bind fun proto q left hleft => ?_
    exact (expression_matches hR table nestingLimit q left hleft).map _
  · next hdeclare =>
    obtain ⟨rest, rfl, hrest⟩ := hR.of_current h hdeclare
    exact (readPrototype_matches hR hrest).map _
  · next t hseparator hdefine hdeclare ht =>
    have hhead : tokens.head? = some t := (hR.head h).symm.trans ht
    unfold Formulary.readConstruct
    split
    · simp at hhead
    · exact (hseparator (Option.some.inj hhead).symm).elim
    · exact (hdefine (Option.some.inj hhead).symm).elim
    · exact (hdeclare (Option.some.inj hhead).symm).elim
    · exact (expression_matches hR table nestingLimit p tokens h).map _

end Parser

end Readers

/-! ## Tokens of a source -/

theorem Cursor.call_succ (strict : Bool) (c : Cursor) (i : Nat) :
    c.call strict (i + 1) = (c.call strict i).2.next strict := by
  induction i generalizing c with
  | zero => rfl
  | succ i ih => exact ih _

theorem getElem?_tokens (strict : Bool) (text : List Char) (i : Nat) :
    (tokens strict text)[i]? = ((Cursor.start text).call strict i).1 := by
  rw [tokens, List.getElem?_map, scan, Cursor.getElem?_readings]
  cases ((Cursor.start text).call strict i).1 <;> rfl

/-- The call that yields the first of the tokens ahead, which are the last ones of the text, or the
    end. -/
def sight (strict : Bool) (text : List Char) (ahead : List Token) : Option Token × Cursor :=
  (Cursor.start text).call strict ((tokens strict text).length - ahead.length)

section Sight

variable {strict : Bool} {text : List Char} {ahead : List Token}

theorem sight_fst (h : ahead <:+ tokens strict text) :
    (sight strict text ahead).1 = ahead.head? := by
  obtain ⟨before, hbefore⟩ := h
  rw [sight, ← getElem?_tokens, ← hbefore, List.length_append, Nat.add_sub_cancel,
    List.getElem?_append_right le_rfl, Nat.sub_self, List.head?_eq_getElem?]

theorem sight_nil (strict : Bool) (text : List Char) :
    sight strict text [] = (none, ⟨[], text.length + 1⟩) := by
  have hnone : (sight strict text []).1 = none := sight_fst List.nil_suffix
  rw [sight, Cursor.call_of_none hnone]
  simp [Cursor.start]

/-- The next call reads on from where the one before it has stopped. At the end nothing is left. -/
theorem sight_tail (h : ahead <:+ tokens strict text) :
    sight strict text ahead.tail = (sight strict text ahead).2.next strict := by
  cases ahead with
  | nil =>
    rw [List.tail_nil, sight_nil]
    rfl
  | cons t rest =>
    have hle := h.length_le
    rw [List.length_cons] at hle
    rw [sight, sight, ← Cursor.call_succ, List.tail_cons, List.length_cons]
    congr 1
    omega

end Sight

namespace Parser

variable {strict : Bool} {source : σ} {p : Parser σ} {ahead : List Token}

/-- The parser of the source has the given tokens ahead, which are the last ones of the text. The
    first of them is in sight, and no more has been asked for than it takes to see it. -/
structure Faces (strict : Bool) (source : σ) (p : Parser σ) (ahead : List Token) : Prop where
  suffix : ahead <:+ tokens strict (CharSource.chars source)
  current : p.current = (sight strict (CharSource.chars source) ahead).1
  lexer : p.lexer.Follows strict source (sight strict (CharSource.chars source) ahead).2

theorem faces_start (strict : Bool) (source : σ) :
    (start strict source).Faces strict source (tokens strict (CharSource.chars source)) := by
  obtain ⟨htoken, hlexer⟩ := (Lexer.follows_start strict source).next
  refine ⟨List.suffix_rfl, ?_, ?_⟩
  · rw [sight, Nat.sub_self]
    exact htoken
  · rw [sight, Nat.sub_self]
    exact hlexer

/-- The token in sight is the first one ahead, and to use it is to go on to the next one. -/
theorem faces_presents (strict : Bool) (source : σ) : Presents (Faces strict source) where
  head h := h.current.trans (sight_fst h.suffix)
  advance h := by
    obtain ⟨htoken, hlexer⟩ := h.lexer.next
    rw [← sight_tail h.suffix] at htoken hlexer
    exact ⟨(List.tail_suffix _).trans h.suffix, htoken, hlexer⟩

end Parser

/-! ## Drivers -/

/-- The end is read only where there are no tokens. -/
theorem readConstruct_ne_end {table : PrecedenceTable} {tokens : List Token} (hne : tokens ≠ []) :
    (readConstruct table tokens).result ≠ .ok .endOfInput := by
  fun_cases readConstruct table tokens with
  | case1 => exact (hne rfl).elim
  | case2 rest => simp [Parsed.ok]
  | case3 rest =>
    intro h
    obtain ⟨proto, -, hbody, -⟩ := Parsed.bind_eq_ok h
    obtain ⟨body, -, hend, -⟩ := Parsed.bind_eq_ok hbody
    simp [Parsed.ok] at hend
  | case4 rest =>
    intro h
    obtain ⟨proto, -, hend, -⟩ := Parsed.bind_eq_ok h
    simp [Parsed.ok] at hend
  | case5 tokens hnil hseparator hdefine hdeclare =>
    intro h
    obtain ⟨e, -, hend, -⟩ := Parsed.bind_eq_ok h
    simp [Parsed.ok] at hend

namespace Session

/-- How often the text has been asked for a character when a session has its next token, or the end
    of the text, in sight. -/
def asked (strict : Bool) (text : List Char) (s : Session) : Nat :=
  (sight strict text s.tokens).2.asked

/-- The text has been asked for its end, once, when no token is left. -/
theorem asked_of_nil {s : Session} (strict : Bool) (text : List Char) (h : s.tokens = []) :
    s.asked strict text = text.length + 1 := by
  rw [asked, h, sight_nil]

theorem asked_le (strict : Bool) (text : List Char) (s : Session) :
    s.asked strict text ≤ text.length + 1 := by
  rw [← asked_of_nil (s := ⟨[], s.code⟩) strict text rfl]
  exact Cursor.asked_call_mono strict _ (Nat.sub_le_sub_left (Nat.zero_le _) _)

theorem tokens_observe {α : Type} (table : PrecedenceTable) (report : Event → Session → α)
    (s : Session) : (s.observe table report).2.tokens = [] := by
  induction s using runInduction table with
  | done s hstep =>
    rw [observe_of_none _ hstep]
    exact step_eq_none_iff.mp hstep
  | step s event after hstep ih =>
    rw [observe_of_some _ hstep]
    exact ih

end Session

namespace Driver

variable {strict : Bool} {source : σ} {d : Driver σ} {s after : Session} {event : Event}
variable {table : PrecedenceTable}

/-- The driver of the source is where the session of its text is: it has the same tokens ahead and
    has made the same code. -/
structure Drives (strict : Bool) (source : σ) (d : Driver σ) (s : Session) : Prop where
  parser : d.parser.Faces strict source s.tokens
  code : d.code = s.code

theorem drives_start (config : Config) (source : σ) :
    (start config source).Drives config.strictNumbers source
      (.start config (CharSource.chars source)) :=
  ⟨Parser.faces_start config.strictNumbers source, rfl⟩

/-- The source has been asked as often as the session has asked the text. -/
theorem Drives.source_eq (h : d.Drives strict source s) :
    d.source = CharSource.after source (s.asked strict (CharSource.chars source)) :=
  h.parser.lexer.source

theorem Drives.step_of_none (h : d.Drives strict source s) (hstep : s.step table = none) :
    ∃ d', d.step table = (none, d') ∧ d'.Drives strict source s := by
  obtain ⟨tokens, code⟩ := s
  obtain rfl : tokens = [] := Session.step_eq_none_iff.mp hstep
  have hread := Parser.readConstruct_matches (Parser.faces_presents strict source) table h.parser
  have hend : (d.parser.readConstruct table).result = .ok .endOfInput := hread.result
  refine ⟨⟨(d.parser.readConstruct table).parser, d.code⟩, ?_, hread.parser, h.code⟩
  simp only [step, hend]

/-- A driver takes the step of the session. -/
theorem Drives.step_of_some (h : d.Drives strict source s)
    (hstep : s.step table = some (event, after)) :
    ∃ d', d.step table = (some event, d') ∧ d'.Drives strict source after := by
  obtain ⟨tokens, code⟩ := s
  have hne : tokens ≠ [] := by
    rintro rfl
    rw [Session.step_eq_none_iff.mpr rfl] at hstep
    simp at hstep
  have hR := Parser.faces_presents strict source
  have hread := Parser.readConstruct_matches hR table h.parser
  have hcode : d.code = code := h.code
  rw [Session.step_eq_respond table code hne] at hstep
  obtain ⟨rfl, rfl⟩ := Prod.mk.inj (Option.some.inj hstep)
  unfold step Parsed.resume
  simp only [hread.result, hcode]
  cases hresult : (readConstruct table tokens).result with
  | error e => exact ⟨_, rfl, hR.advance hread.parser, rfl⟩
  | ok c =>
    split
    · next hend => exact (readConstruct_ne_end hne (hresult.trans hend)).elim
    · next herror => simp at herror
    · next c' _ hc =>
      obtain rfl := Except.ok.inj hc
      exact ⟨_, rfl, hread.parser, rfl⟩

/-- A driver takes the steps of the session, so that reports which say the same of driver and
    session say the same of the runs. -/
theorem Drives.observe (h : d.Drives strict source s) (table : PrecedenceTable)
    (report : Event → Driver σ → α) (report' : Event → Session → α)
    (hreport : ∀ event d s, Drives strict source d s → report event d = report' event s) :
    (d.observe table report).1 = (s.observe table report').1 ∧
      (d.observe table report).2.Drives strict source (s.observe table report').2 := by
  induction s using Session.runInduction table generalizing d with
  | done s hstep =>
    obtain ⟨d', hd', hdrives⟩ := h.step_of_none hstep
    rw [observe_of_none _ hd', Session.observe_of_none _ hstep]
    exact ⟨rfl, hdrives⟩
  | step s event after hstep ih =>
    obtain ⟨d', hd', hdrives⟩ := h.step_of_some hstep
    obtain ⟨hreports, hfinal⟩ := ih hdrives
    rw [observe_of_some _ hd', Session.observe_of_some _ hstep, hreport event d' after hdrives,
      hreports]
    exact ⟨rfl, hfinal⟩

/-- The driver of a source takes the steps of the session of its text, and has asked the source as
    often as the session has asked the text. -/
theorem observe_start (config : Config) (source : σ) (report : Event → CodeModule → α) :
    let text := CharSource.chars source
    let steps := (Session.start config text).observe config.precedence Prod.mk
    let driven := (start config source).observe config.precedence
      fun event d => report event d.code
    driven.1 = steps.1.map (fun step => report step.1 step.2.code) ∧
      driven.2.code = steps.2.code ∧
      driven.2.source = CharSource.after source (steps.2.asked config.strictNumbers text) := by
  intro text steps driven
  obtain ⟨hreports, hfinal⟩ := (drives_start config source).observe config.precedence
    (fun event d => report event d.code) (fun event s => report event s.code)
    fun event d s h => by rw [h.code]
  rw [Session.observe_eq_map] at hreports hfinal
  exact ⟨hreports, hfinal.code, hfinal.source_eq⟩

end Driver

/-! ## Counting what is asked for -/

/-- A source with counters of how often it has been asked and how many characters it has handed
    out. -/
structure Tallied (σ : Type) where
  source : σ
  asked : Nat
  pulled : Nat

namespace Tallied

instance : CharSource (Tallied σ) where
  next t :=
    let (c, source) := CharSource.next t.source
    (c, ⟨source, t.asked + 1, t.pulled + c.toList.length⟩)
  size t := CharSource.size t.source
  size_next t := CharSource.size_next t.source

theorem next_of_none {t : Tallied σ} {s : σ} (h : CharSource.next t.source = (none, s)) :
    CharSource.next t = (none, ⟨s, t.asked + 1, t.pulled⟩) := by
  simp [CharSource.next, h]

theorem next_of_some {t : Tallied σ} {s : σ} {c : Char}
    (h : CharSource.next t.source = (some c, s)) :
    CharSource.next t = (some c, ⟨s, t.asked + 1, t.pulled + 1⟩) := by
  simp [CharSource.next, h]

/-- Counting does not change what is handed out. -/
theorem chars_eq (t : Tallied σ) : CharSource.chars t = CharSource.chars t.source := by
  induction htext : CharSource.chars t.source generalizing t with
  | nil =>
    rcases CharSource.next_cases t.source with ⟨s, hnext, -⟩ | ⟨c, s, -, hchars⟩
    · exact CharSource.chars_of_none (next_of_none hnext)
    · exact absurd (htext.symm.trans hchars) (by simp)
  | cons c text ih =>
    rcases CharSource.next_cases t.source with ⟨s, -, hchars⟩ | ⟨c', s, hnext, hchars⟩
    · exact absurd (htext.symm.trans hchars) (by simp)
    · obtain ⟨rfl, hrest⟩ := List.cons.inj (htext.symm.trans hchars)
      rw [CharSource.chars_of_some (next_of_some hnext), ih ⟨s, _, _⟩ hrest.symm]

/-- Calls are counted, and up to the first end all but the one for the end bring a character. -/
theorem after_eq (t : Tallied σ) {calls : Nat}
    (h : calls ≤ (CharSource.chars t.source).length + 1) :
    CharSource.after t calls =
      ⟨CharSource.after t.source calls, t.asked + calls,
        t.pulled + min calls (CharSource.chars t.source).length⟩ := by
  induction calls generalizing t with
  | zero => simp [CharSource.after]
  | succ calls ih =>
    rw [CharSource.after, CharSource.after]
    rcases CharSource.next_cases t.source with ⟨s, hnext, hchars⟩ | ⟨c, s, hnext, hchars⟩
    · obtain rfl : calls = 0 := by simpa [hchars] using h
      rw [next_of_none hnext, hnext, hchars]
      rfl
    · rw [hchars, List.length_cons] at h ⊢
      rw [next_of_some hnext, hnext, ih ⟨s, _, _⟩ (Nat.le_of_succ_le_succ h)]
      simp only [Nat.add_min_add_right]
      congr 1 <;> omega

end Tallied

/-- What shows of a driver over a source that counts. -/
def Driver.moment (event : Option Event) (d : Driver (Tallied σ)) : Moment where
  event := event
  code := d.code
  pulled := d.source.pulled
  endMet := d.source.pulled < d.source.asked

/-- What shows of the driver of a source before the first step and after each. -/
def drivenTranscript (config : Config) (source : σ) : List Moment :=
  let start := Driver.start config (⟨source, 0, 0⟩ : Tallied σ)
  start.moment none :: (start.observe config.precedence fun event d => d.moment (some event)).1

theorem Driver.Drives.moment {strict : Bool} {source : σ} {d : Driver (Tallied σ)} {s : Session}
    (h : d.Drives strict ⟨source, 0, 0⟩ s) (event : Option Event) :
    d.moment event = s.moment strict (CharSource.chars source) event := by
  have hle := Session.asked_le strict (CharSource.chars source) s
  have hsource := h.source_eq
  rw [Tallied.chars_eq, Tallied.after_eq _ hle] at hsource
  have hasked : ((Cursor.start (CharSource.chars source)).call strict
      ((scan strict (CharSource.chars source)).length - s.tokens.length)).2.asked =
        s.asked strict (CharSource.chars source) := by
    rw [Session.asked, sight, tokens, List.length_map]
  simp only [Driver.moment, Session.moment, Session.pulled, pulledAfter_eq, hsource, hasked, h.code,
    Nat.zero_add]
  congr 1
  exact decide_eq_decide.mpr (by omega)

/-- The session of a text shows what the driver of a source of it shows, so the characters that it
    has read are those that the readers of the driver have called for. -/
theorem transcript_eq_driven (config : Config) (source : σ) :
    transcript config (String.ofList (CharSource.chars source)) =
      drivenTranscript config source := by
  have hstart := Driver.drives_start config (⟨source, 0, 0⟩ : Tallied σ)
  rw [Tallied.chars_eq] at hstart
  obtain ⟨hmoments, -⟩ := hstart.observe config.precedence
    (fun event d => d.moment (some event))
    (fun event s => s.moment config.strictNumbers (CharSource.chars source) (some event))
    fun event d s h => h.moment (some event)
  rw [Session.observe_eq_map] at hmoments
  rw [drivenTranscript, hmoments, hstart.moment, transcript, String.toList_ofList, Session.history,
    List.map_cons, Session.observe_eq_map, List.map_map]
  rfl

end Formulary

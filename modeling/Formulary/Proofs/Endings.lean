import Formulary.Proofs.Constructs
import Formulary.Proofs.Lookahead

/-!
# What a refused number behind a construct does to it

A refused number is part of no construct. Behind a construct that ends in a number or a parenthesis
reading stops in front of it, as it would at the end of the program, and the next construct reports
it. Behind a bare identifier the look for an opening parenthesis reports it at once, and the
construct that the identifier ends is lost.

* `ClosesAt`: what reading makes of tokens that it has read to their end, with a refused number
  behind them; `ClosesAt.bind` for two readings in a row.
* `expression_closes`, `readConstruct_closesAt`: this holds of expressions and of constructs.
* `construct_kept_iff`: when a construct is kept.
* `definition_lost`: one that is lost.
-/

namespace Formulary

variable {α β : Type}

/-! ## Reading up to a refused number -/

/-- Of tokens `c` that mean `a`, with a refused number behind them: the reading takes `c` and leaves
    the number, unless `c` ends in an identifier; then it reports the number. -/
structure ClosesAt (read : List Token → Parsed α) (c : List Token) (a : α) : Prop where
  kept : ¬ EndsInName c → ∀ text r,
    read (c ++ .malformed text :: r) = .ok a (.malformed text :: r)
  lost : EndsInName c → ∀ text r,
    read (c ++ .malformed text :: r) = .fail (.malformedNumber text) (.malformed text :: r)

theorem endsInName_cons {t : Token} {c : List Token} (h : c ≠ [] ∨ ∃ s, t = .symbol s) :
    EndsInName (t :: c) ↔ EndsInName c := by
  unfold EndsInName
  rcases h with hne | ⟨s, rfl⟩
  · rw [List.getLast?_cons_of_ne_nil hne]
  · cases c with
    | nil => simp
    | cons t c => rw [List.getLast?_cons_cons]

theorem endsInName_of_suffix {c d : List Token} (h : d <:+ c) (hne : d ≠ []) :
    EndsInName c ↔ EndsInName d := by
  obtain ⟨front, rfl⟩ := h
  rw [endsInName_append]
  simp [hne]

namespace ClosesAt

variable {read : List Token → Parsed α} {c rest : List Token} {a : α} {b : β}

/-- A token in front changes nothing, unless it is all there is. -/
theorem behind (read : List Token → Parsed α) {t : Token}
    (h : ClosesAt (fun rest => read (t :: rest)) c a) (ht : c ≠ [] ∨ ∃ s, t = .symbol s) :
    ClosesAt read (t :: c) a where
  kept hend := h.kept (mt (endsInName_cons ht).mpr hend)
  lost hend := h.lost ((endsInName_cons ht).mp hend)

theorem map (h : ClosesAt read c a) (f : α → β) : ClosesAt (fun c => (read c).map f) c (f a) where
  kept hend text r := by
    rw [h.kept hend]
    rfl
  lost hend text r := by
    rw [h.lost hend]
    rfl

/-- Two readings in a row: the refused number is met by the first one, if that has read to the end,
    and by the second one in any case. -/
theorem bind (next : α → List Token → Parsed β) (hahead : OneAhead read)
    (hsuffix : ∀ tokens, (read tokens).rest <:+ tokens) (hread : read c = .ok a rest)
    (hfirst : rest = [] → ClosesAt read c a) (hnext : ClosesAt (next a) rest b) :
    ClosesAt (fun c => (read c).bind next) c b := by
  by_cases hrest : rest = []
  · subst hrest
    have hkept := hnext.kept (by simp [EndsInName])
    refine ⟨fun hend text r => ?_, fun hend text r => ?_⟩
    · rw [(hfirst rfl).kept hend]
      exact hkept text r
    · rw [(hfirst rfl).lost hend]
      rfl
  · have hends : EndsInName c ↔ EndsInName rest := by
      refine endsInName_of_suffix ?_ hrest
      have hle := hsuffix c
      rwa [hread] at hle
    -- the first reading stops at a token of its own, so what stands behind is not looked at
    have hall : ∀ more, read (c ++ more) = .ok a (rest ++ more) := by
      refine hahead c [] (.ok a rest) hrest ?_
      rw [List.append_nil, hread, Parsed.followedBy, List.append_nil]
    refine ⟨fun hend text r => ?_, fun hend text r => ?_⟩
    · rw [hall]
      exact hnext.kept (mt hends.mpr hend) text r
    · rw [hall]
      exact hnext.lost (hends.mp hend) text r

theorem symbol {s : Char} (h : ∀ rest, read (.symbol s :: rest) = .ok a rest) :
    ClosesAt read [.symbol s] a where
  kept _ text r := h _
  lost hend := by simp [EndsInName] at hend

end ClosesAt

/-! ## Expressions -/

section Expressions

variable {table : PrecedenceTable} {inner : Reader Expr}

/-- The reader closes whatever it reads to the end. -/
def Reader.Closes (r : Reader α) : Prop := ∀ c a, r.read c = .ok a [] → ClosesAt r.read c a

theorem readArguments_closesAt (hahead : OneAhead inner.read) {done args : List Expr}
    {c : List Token} (h : readArguments inner done c = .ok args []) :
    ClosesAt (readArguments inner done) c args := by
  induction hn : c.length using Nat.strongRecOn generalizing done c with
  | ind n ih =>
    rw [readArguments_eq_bind] at h
    obtain ⟨arg, rest, hread, hrest⟩ := Parsed.bind_eq_ok_iff.mp h
    have hbind : readArguments inner done = _ := funext (readArguments_eq_bind inner done)
    rw [hbind]
    refine .bind _ hahead inner.suffix hread ?_ ?_
    · -- behind an argument there is at least a parenthesis
      rintro rfl
      exact (Parsed.fail_ne_ok _ _ _ _ hrest).elim
    · split at hrest
      · obtain ⟨rfl, rfl⟩ := Parsed.ok_inj.mp hrest
        exact .symbol fun rest => rfl
      · next tail =>
        have hlt : tail.length < n := hn ▸ inner.length_lt_of_rest (by rw [hread]; rfl)
        exact .behind _ (ih _ hlt hrest rfl) (.inr ⟨_, rfl⟩)
      · exact (Parsed.fail_ne_ok _ _ _ _ hrest).elim

theorem readCall_closesAt (hahead : OneAhead inner.read) {callee : String} {c : List Token}
    {e : Expr} (h : readCall inner callee c = .ok e []) : ClosesAt (readCall inner callee) c e := by
  cases c with
  | nil =>
    -- an argument that takes nothing leaves no parenthesis
    obtain ⟨args, hargs, -⟩ := Parsed.map_eq_ok_iff.mp h
    rw [readArguments_eq_bind] at hargs
    obtain ⟨arg, rest, hread, hrest⟩ := Parsed.bind_eq_ok_iff.mp hargs
    have hsuffix := inner.suffix []
    rw [hread] at hsuffix
    obtain rfl : rest = [] := List.suffix_nil.mp hsuffix
    exact (Parsed.fail_ne_ok _ _ _ _ hrest).elim
  | cons t c =>
    by_cases hclose : t = .symbol ')'
    · subst hclose
      obtain ⟨rfl, rfl⟩ := Parsed.ok_inj.mp h
      exact .symbol fun rest => rfl
    cases hsound : t.isSound with
    | false =>
      cases t with
      | malformed text => exact (Parsed.fail_ne_ok _ _ _ _ h).elim
      | _ => simp [Token.isSound] at hsound
    | true =>
      rw [readCall_of_head hclose hsound] at h
      obtain ⟨args, hargs, rfl⟩ := Parsed.map_eq_ok_iff.mp h
      have hcloses := (readArguments_closesAt hahead hargs).map (Expr.call callee)
      refine ⟨fun hend text r => ?_, fun hend text r => ?_⟩
      · rw [List.cons_append, readCall_of_head hclose hsound]
        exact hcloses.kept hend text r
      · rw [List.cons_append, readCall_of_head hclose hsound]
        exact hcloses.lost hend text r

/-- A bare identifier is lost, and any other primary is kept. -/
theorem primary_closes (hahead : OneAhead inner.read) (hinner : inner.Closes) :
    (primary inner).Closes := by
  intro c e h
  change readPrimary inner c = .ok e [] at h
  show ClosesAt (readPrimary inner) c e
  fun_cases readPrimary inner c with
  | case1 name rest =>
    change readReference inner name rest = .ok e [] at h
    fun_cases readReference inner name rest with
    | case1 tail =>
      have hcall : ClosesAt (readCall inner name) tail e := readCall_closesAt hahead h
      have hreference : ClosesAt (readReference inner name) (.symbol '(' :: tail) e :=
        .behind _ hcall (.inr ⟨_, rfl⟩)
      exact .behind (readPrimary inner) hreference (.inl (by simp))
    | case2 text tail => exact (Parsed.fail_ne_ok _ _ _ _ h).elim
    | case3 rest hopen hmalformed =>
      rw [readReference.eq_3 _ _ _ hopen hmalformed] at h
      obtain ⟨rfl, rfl⟩ := Parsed.ok_inj.mp h
      refine ⟨fun hend => ?_, fun _ text r => rfl⟩
      exact (hend ⟨name, rfl⟩).elim
  | case2 x rest =>
    obtain ⟨rfl, rfl⟩ := Parsed.ok_inj.mp h
    exact ⟨fun _ text r => rfl, by simp [EndsInName]⟩
  | case3 rest =>
    obtain ⟨e', left, hread, hclosing⟩ := Parsed.bind_eq_ok_iff.mp h
    refine .behind _ (.bind readClosing hahead inner.suffix hread ?_ ?_) (.inr ⟨_, rfl⟩)
    · rintro rfl
      exact hinner rest e' hread
    · fun_cases readClosing e' left with
      | case1 tail =>
        obtain ⟨rfl, rfl⟩ := Parsed.ok_inj.mp hclosing
        exact .symbol fun rest => rfl
      | case2 left hclose =>
        rw [readClosing.eq_2 _ _ hclose] at hclosing
        exact (Parsed.fail_ne_ok _ _ _ _ hclosing).elim
  | case4 c hname hnumber hopen =>
    rw [readPrimary.eq_4 _ _ hname hnumber hopen] at h
    exact (Parsed.fail_ne_ok _ _ _ _ h).elim

theorem readLinks_closesAt {operand : Reader Expr} (hahead : OneAhead operand.read)
    (hoperand : operand.Closes) {done links : List Link} {c : List Token}
    (h : readLinks table operand done c = .ok links []) :
    ClosesAt (readLinks table operand done) c links := by
  induction hn : c.length using Nat.strongRecOn generalizing done c with
  | ind n ih =>
    rcases notOperator_or_operator table c with hop | ⟨op, rest, precedence, rfl, hop⟩
    · rw [readLinks_of_notOperator operand done hop] at h
      obtain ⟨rfl, rfl⟩ := Parsed.ok_inj.mp h
      refine ⟨fun _ text r => ?_, by simp [EndsInName]⟩
      exact readLinks_of_notOperator operand done (by simp [NotOperator])
    · rw [readLinks_eq_bind hop] at h
      obtain ⟨rhs, left, hread, hleft⟩ := Parsed.bind_eq_ok_iff.mp h
      have hlt : left.length < n := hn ▸ Nat.lt_succ_of_le (operand.length_le_of_read hread)
      have hbind : (fun rest => readLinks table operand done (.symbol op :: rest)) = _ :=
        funext (readLinks_eq_bind hop done)
      refine .behind _ ?_ (.inr ⟨_, rfl⟩)
      rw [hbind]
      refine .bind _ hahead operand.suffix hread ?_ (ih _ hlt hleft rfl)
      rintro rfl
      exact hoperand rest rhs hread

theorem chain_closes {operand : Reader Expr} (hahead : OneAhead operand.read)
    (hoperand : operand.Closes) : (chain table operand).Closes := by
  intro c e h
  change (operand.read c).bind (fun first rest =>
    (readLinks table operand [] rest).map (groupChain first)) = .ok e [] at h
  obtain ⟨first, rest, hread, hrest⟩ := Parsed.bind_eq_ok_iff.mp h
  obtain ⟨links, hlinks, rfl⟩ := Parsed.map_eq_ok_iff.mp hrest
  refine .bind (fun first rest => (readLinks table operand [] rest).map (groupChain first)) hahead
    operand.suffix hread ?_ ((readLinks_closesAt hahead hoperand hlinks).map (groupChain first))
  rintro rfl
  exact hoperand c first hread

/-- Expressions, however many are open: what is lost ends in an identifier. -/
theorem expression_closes (table : PrecedenceTable) (levels : Nat) :
    (expression table levels).Closes := by
  induction levels with
  | zero => exact fun c e h => (Parsed.fail_ne_ok _ _ _ _ h).elim
  | succ levels ih =>
    have hahead := expression_oneAhead table levels
    exact chain_closes (primary_oneAhead hahead) (primary_closes hahead ih)

end Expressions

/-! ## Constructs -/

theorem readParams_closesAt {done params : List String} {c : List Token}
    (h : readParams done c = .ok params []) : ClosesAt (readParams done) c params := by
  fun_induction readParams done c with
  | case1 done name rest ih =>
    refine .behind _ (ih h) (.inl ?_)
    rintro rfl
    exact Parsed.fail_ne_ok _ _ _ _ h
  | case2 done rest =>
    obtain ⟨rfl, rfl⟩ := Parsed.ok_inj.mp h
    exact .symbol fun rest => rfl
  | case3 => exact (Parsed.fail_ne_ok _ _ _ _ h).elim

theorem readPrototype_closesAt {c : List Token} {p : Prototype} (h : readPrototype c = .ok p []) :
    ClosesAt readPrototype c p := by
  fun_cases readPrototype c with
  | case1 name rest =>
    change readSignature name rest = .ok p [] at h
    refine .behind readPrototype ?_ (.inl ?_)
    · show ClosesAt (readSignature name) rest p
      fun_cases readSignature name rest with
      | case1 tail =>
        obtain ⟨params, hparams, rfl⟩ := Parsed.map_eq_ok_iff.mp h
        exact .behind _ ((readParams_closesAt hparams).map (Prototype.mk name)) (.inr ⟨_, rfl⟩)
      | case2 rest hopen =>
        rw [readSignature.eq_2 _ _ hopen] at h
        exact (Parsed.fail_ne_ok _ _ _ _ h).elim
    · rintro rfl
      exact Parsed.fail_ne_ok _ _ _ _ h
  | case2 c hname =>
    rw [readPrototype.eq_2 _ hname] at h
    exact (Parsed.fail_ne_ok _ _ _ _ h).elim

/-- A construct that is read to its end is kept in front of a refused number, unless it ends in an
    identifier. -/
theorem readConstruct_closesAt {table : PrecedenceTable} {c : List Token} {k : Construct}
    (hne : c ≠ []) (h : readConstruct table c = .ok k []) : ClosesAt (readConstruct table) c k := by
  have hexpression : ∀ c e, readExpression table c = .ok e [] →
      ClosesAt (readExpression table) c e := expression_closes table nestingLimit
  fun_cases readConstruct table c with
  | case1 => exact (hne rfl).elim
  | case2 rest =>
    obtain ⟨rfl, rfl⟩ := Parsed.ok_inj.mp h
    exact .symbol fun rest => rfl
  | case3 rest =>
    rw [readConstruct] at h
    obtain ⟨p, left, hp, hleft⟩ := Parsed.bind_eq_ok_iff.mp h
    obtain ⟨body, hbody, rfl⟩ := Parsed.map_eq_ok_iff.mp hleft
    refine .behind (readConstruct table) ?_ (.inl ?_)
    · refine .bind (fun p rest =>
        (readExpression table rest).map fun body => Construct.definition ⟨p, body⟩)
        readPrototype_oneAhead readPrototype_suffix hp ?_ ((hexpression left body hbody).map _)
      rintro rfl
      exact readPrototype_closesAt hp
    · rintro rfl
      exact Parsed.fail_ne_ok _ _ _ _ hp
  | case4 rest =>
    obtain ⟨p, hp, rfl⟩ := Parsed.map_eq_ok_iff.mp h
    refine .behind _ ((readPrototype_closesAt hp).map Construct.declaration) (.inl ?_)
    rintro rfl
    exact Parsed.fail_ne_ok _ _ _ _ hp
  | case5 c hnil hsemicolon hdefine hdeclare =>
    -- what stands behind does not change the first token, by which the kind is told
    have hread : ∀ more, readConstruct table (c ++ more) =
        (readExpression table (c ++ more)).map fun body => .expression (.ofExpr body) := by
      obtain ⟨t, rest, rfl⟩ := List.exists_cons_of_ne_nil hne
      intro more
      rw [readConstruct.eq_5 _ _ (by simp)]
      · exact fun tail heq => hsemicolon rest (by rw [(List.cons.inj heq).1])
      · exact fun tail heq => hdefine rest (by rw [(List.cons.inj heq).1])
      · exact fun tail heq => hdeclare rest (by rw [(List.cons.inj heq).1])
    rw [readConstruct.eq_5 _ _ hnil hsemicolon hdefine hdeclare] at h
    obtain ⟨body, hbody, rfl⟩ := Parsed.map_eq_ok_iff.mp h
    have hcloses := (hexpression c body hbody).map fun body => Construct.expression (.ofExpr body)
    refine ⟨fun hend text r => ?_, fun hend text r => ?_⟩
    · rw [hread]
      exact hcloses.kept hend text r
    · rw [hread]
      exact hcloses.lost hend text r

/-- A construct that is read to the end of the program is read as well with a refused number and any
    tokens behind it, and the number is left for the next construct to report, if and only if the
    construct does not end in an identifier. One that ends in an identifier is lost: the number is
    reported in its place. -/
theorem construct_kept_iff (table : PrecedenceTable) {c : List Token} {k : Construct} (hne : c ≠ [])
    (h : readConstruct table c = .ok k []) (text : String) (r : List Token) :
    let refused := Token.malformed text :: r
    (readConstruct table (c ++ refused) = .ok k refused ↔ ¬ EndsInName c) ∧
      (EndsInName c → readConstruct table (c ++ refused) = .fail (.malformedNumber text) refused) ∧
      readConstruct table refused = .fail (.malformedNumber text) refused := by
  intro refused
  have hcloses := readConstruct_closesAt hne h
  refine ⟨⟨?_, ?_⟩, ?_, ?_⟩
  · intro hkept hend
    rw [hcloses.lost hend] at hkept
    exact Parsed.fail_ne_ok _ _ _ _ hkept
  · intro hend
    exact hcloses.kept hend text r
  · intro hend
    exact hcloses.lost hend text r
  · rfl

theorem readConstruct_definition {c : List Token} {body : Expr}
    (hbody : Phrase .standard nestingLimit c body) (p : Prototype) :
    readConstruct .standard (.define :: (p.spelling ++ c)) = .ok (.definition ⟨p, body⟩) [] := by
  have hread := hbody.read PrecedenceTable.standard_sparesPunctuation []
    ⟨by simp [NotOperator], by simp [NotOpening]⟩ (by simp [NotMalformed])
  rw [List.append_nil] at hread
  rw [readConstruct, readPrototype_spelling]
  exact Parsed.map_eq_ok_iff.mpr ⟨body, hread, rfl⟩

/-- The definition `def f(x) (x)` is kept in front of `1.2.3`. -/
theorem construct_kept_iff_parenthesis :
    let c := tokens true "def f(x) (x)".toList
    let f : Construct := .definition ⟨⟨"f", ["x"]⟩, .var "x"⟩
    let refused := [Token.malformed "1.2.3"]
    readConstruct .standard c = .ok f [] ∧
      readConstruct .standard (c ++ refused) = .ok f refused := by
  intro c f refused
  have hc : c = [.define, .identifier "f", .symbol '(', .identifier "x", .symbol ')', .symbol '(',
      .identifier "x", .symbol ')'] := by decide +kernel
  have hbody : Phrase .standard nestingLimit [.symbol '(', .identifier "x", .symbol ')']
      (.var "x") :=
    .chain (.parens (.chain (.var "x") .nil (.single _))) .nil (.single _)
  have hread : readConstruct .standard c = .ok f [] :=
    hc ▸ readConstruct_definition hbody ⟨"f", ["x"]⟩
  refine ⟨hread, (construct_kept_iff .standard (by simp [hc]) hread "1.2.3" []).1.mpr ?_⟩
  simp [hc, EndsInName]

/-- The complete definition `def f(x) x` is lost to the number `1.2.3` on the next line. -/
theorem definition_lost :
    let c := tokens true "def f(x) x".toList
    let f : Construct := .definition ⟨⟨"f", ["x"]⟩, .var "x"⟩
    let refused := [Token.malformed "1.2.3"]
    tokens true "def f(x) x\n1.2.3".toList = c ++ refused ∧
      readConstruct .standard c = .ok f [] ∧
      readConstruct .standard (c ++ refused) = .fail (.malformedNumber "1.2.3") refused := by
  intro c f refused
  have hc : c = [.define, .identifier "f", .symbol '(', .identifier "x", .symbol ')',
      .identifier "x"] := by decide +kernel
  have hbody : Phrase .standard nestingLimit [.identifier "x"] (.var "x") :=
    .chain (.var "x") .nil (.single _)
  have hread : readConstruct .standard c = .ok f [] :=
    hc ▸ readConstruct_definition hbody ⟨"f", ["x"]⟩
  refine ⟨by decide +kernel, hread, ?_⟩
  exact (readConstruct_closesAt (by simp [hc]) hread).lost ⟨"x", by simp [hc]⟩ "1.2.3" []

end Formulary

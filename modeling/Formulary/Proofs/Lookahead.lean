import Formulary.Proofs.Resynchronisation

/-!
# Readers look one token ahead

A reader decides by the tokens that it takes and by the first one that it leaves. What stands
behind that one is not looked at: with other tokens there the outcome is the same, and only the
tokens that are left differ. At the end of the program there is no such token, and nothing is said.

* `OneAhead`: the property of a reading function.
* `OneAhead.bind`: two readings in a row look one token ahead if both do.
* `expression_oneAhead`: expressions, however many are open.
* `readConstruct_oneAhead`: constructs.
* `resume_oneAhead`: also the place where reading goes on depends on no more than that.
-/

namespace Formulary

variable {α β : Type}

/-- With a token left in front of the tokens `b`, the outcome does not depend on `b`. -/
def OneAhead (read : List Token → Parsed α) : Prop :=
  ∀ (a b : List Token) (p : Parsed α), p.rest ≠ [] → read (a ++ b) = p.followedBy b →
    ∀ b', read (a ++ b') = p.followedBy b'

namespace OneAhead

variable {read : List Token → Parsed α} {next : α → List Token → Parsed β}

/-- A function that takes nothing looks at nothing. -/
theorem leave (result : Except ParseError α) (c : List Token) :
    OneAhead fun rest => ⟨result, c ++ rest⟩ := by
  intro a b p _ h b'
  obtain ⟨hresult, hrest⟩ := Parsed.mk.inj h
  rw [← List.append_assoc] at hrest
  show (⟨result, c ++ (a ++ b')⟩ : Parsed α) = p.followedBy b'
  rw [← List.append_assoc, List.append_cancel_right hrest, hresult]
  rfl

theorem behind (h : OneAhead read) (t : Token) : OneAhead fun rest => read (t :: rest) :=
  fun a b p => h (t :: a) b p

theorem ne_nil_of_left (hsuffix : ∀ tokens, (read tokens).rest <:+ tokens) {a b : List Token}
    {p : Parsed α} (hne : p.rest ≠ []) (h : read (a ++ b) = p.followedBy b) : a ≠ [] := by
  rintro rfl
  have hlen := (hsuffix b).length_le
  have hpos := List.length_pos_iff.mpr hne
  rw [List.nil_append] at h
  rw [h, Parsed.followedBy, List.length_append] at hlen
  omega

/-- A token that is left was there before, so a function can be taken apart by the first token. -/
theorem of_cons (hsuffix : ∀ tokens, (read tokens).rest <:+ tokens)
    (h : ∀ t, OneAhead fun rest => read (t :: rest)) : OneAhead read := by
  intro a b p hne hread b'
  obtain ⟨t, a, rfl⟩ := List.exists_cons_of_ne_nil (ne_nil_of_left hsuffix hne hread)
  exact h t a b p hne hread b'

/-- Of two readings in a row, the first one leaves a token if the second one does. -/
theorem first_of_bind (hread : OneAhead read)
    (hsuffix : ∀ x tokens, (next x tokens).rest <:+ tokens) {a b : List Token} {p : Parsed β}
    (hne : p.rest ≠ []) (h : (read (a ++ b)).bind next = p.followedBy b) :
    ∃ first : Parsed α, first.rest ≠ [] ∧ (∀ b', read (a ++ b') = first.followedBy b') ∧
      (first.followedBy b).bind next = p.followedBy b := by
  rcases hfirst : read (a ++ b) with ⟨result, rest⟩
  have hrest : p.rest ++ b <:+ rest := by
    have hbind := congrArg Parsed.rest h
    rw [hfirst] at hbind
    rw [show p.rest ++ b = (p.followedBy b).rest from rfl, ← hbind]
    cases result with
    | ok x => exact hsuffix x rest
    | error e => exact List.suffix_rfl
  obtain ⟨taken, rfl⟩ := hrest
  have hleft : taken ++ p.rest ≠ [] := by simp [hne]
  have hfollowed : read (a ++ b) = Parsed.followedBy ⟨result, taken ++ p.rest⟩ b := by
    rw [hfirst, Parsed.followedBy, List.append_assoc]
  refine ⟨_, hleft, hread a b _ hleft hfollowed, ?_⟩
  rw [← hfollowed, h]

/-- Two readings in a row look one token ahead if both do. -/
theorem bind (hread : OneAhead read) (hnext : ∀ x, OneAhead (next x))
    (hsuffix : ∀ x tokens, (next x tokens).rest <:+ tokens) :
    OneAhead fun tokens => (read tokens).bind next := by
  intro a b p hne h b'
  obtain ⟨⟨result, rest⟩, -, hall, hsecond⟩ := hread.first_of_bind hsuffix hne h
  show (read (a ++ b')).bind next = p.followedBy b'
  rw [hall b']
  cases result with
  | ok x => exact hnext x rest b p hne hsecond b'
  | error e => exact leave (.error e) [] rest b p hne hsecond b'

theorem map (hread : OneAhead read) (f : α → β) : OneAhead fun tokens => (read tokens).map f :=
  hread.bind (fun x => leave (.ok (f x)) []) fun _ _ => List.suffix_rfl

end OneAhead

/-! ## Expressions -/

section Expressions

variable {table : PrecedenceTable} {inner : Reader Expr}

/-- Whether a fault is a refused number is seen from the token it is at. -/
theorem oneAhead_fault (expected : ParseError) (t : Token) :
    OneAhead (α := α) fun rest => .fail (faultAt expected (t :: rest)) (t :: rest) := by
  cases t with
  | malformed text => exact .leave (.error (.malformedNumber text)) [.malformed text]
  | _ => exact .leave (.error expected) [_]

theorem behindArgument_suffix (inner : Reader Expr) (done : List Expr) (arg : Expr)
    (tokens : List Token) :
    (match tokens with
      | .symbol ')' :: rest => Parsed.ok (arg :: done).reverse rest
      | .symbol ',' :: rest => readArguments inner (arg :: done) rest
      | rest => .fail (faultAt .expectedArgumentSeparator rest) rest).rest <:+ tokens := by
  split
  · exact List.suffix_cons _ _
  · exact (readArguments_suffix inner _ _).trans (List.suffix_cons _ _)
  · exact List.suffix_rfl

theorem readArguments_oneAhead (hinner : OneAhead inner.read) (done : List Expr) :
    OneAhead (readArguments inner done) := by
  intro a
  induction hn : a.length using Nat.strongRecOn generalizing a done with
  | ind n ih =>
    intro b p hne h b'
    rw [readArguments_eq_bind] at h
    obtain ⟨⟨result, left⟩, hleft, hall, hrest⟩ :=
      hinner.first_of_bind (behindArgument_suffix inner done) hne h
    rw [readArguments_eq_bind, hall b']
    cases result with
    | error e => exact OneAhead.leave (.error e) [] left b p hne hrest b'
    | ok arg =>
      obtain ⟨t, left, rfl⟩ := List.exists_cons_of_ne_nil hleft
      have hlt : left.length < n := by
        have hread := hall []
        rw [List.append_nil] at hread
        have hrest : (inner.read a).rest = t :: left := by simp [hread, Parsed.followedBy]
        exact hn ▸ inner.length_lt_of_rest hrest
      simp only [Parsed.followedBy, Parsed.bind, List.cons_append] at hrest ⊢
      split at hrest
      · next heq =>
        obtain ⟨rfl, rfl⟩ := List.cons.inj heq
        exact OneAhead.leave (.ok _) [] left b p hne hrest b'
      · next heq =>
        obtain ⟨rfl, rfl⟩ := List.cons.inj heq
        exact ih _ hlt _ left rfl b p hne hrest b'
      · next hclose hcomma =>
        split
        · next heq =>
          obtain ⟨rfl, -⟩ := List.cons.inj heq
          exact (hclose _ rfl).elim
        · next heq =>
          obtain ⟨rfl, -⟩ := List.cons.inj heq
          exact (hcomma _ rfl).elim
        · exact oneAhead_fault _ t left b p hne hrest b'

theorem readCall_oneAhead (hinner : OneAhead inner.read) (callee : String) :
    OneAhead (readCall inner callee) := by
  refine .of_cons (readCall_suffix inner callee) fun t => ?_
  by_cases hclose : t = .symbol ')'
  · subst hclose
    exact .leave (.ok (Expr.call callee [])) []
  cases hsound : t.isSound with
  | false =>
    cases t with
    | malformed text => exact .leave (.error (.malformedNumber text)) [.malformed text]
    | _ => simp [Token.isSound] at hsound
  | true =>
    have harguments := ((readArguments_oneAhead hinner []).map (Expr.call callee)).behind t
    simpa only [readCall_of_head hclose hsound] using harguments

theorem readReference_oneAhead (hinner : OneAhead inner.read) (name : String) :
    OneAhead (readReference inner name) := by
  refine .of_cons (readReference_suffix inner name) fun t => ?_
  by_cases hopen : t = .symbol '('
  · subst hopen
    exact readCall_oneAhead hinner name
  cases hsound : t.isSound with
  | false =>
    cases t with
    | malformed text => exact .leave (.error (.malformedNumber text)) [.malformed text]
    | _ => simp [Token.isSound] at hsound
  | true =>
    have hvar : ∀ rest, readReference inner name (t :: rest) = .ok (.var name) (t :: rest) := by
      intro rest
      refine readReference_of_notOpening ?_ ?_
      · intro tail heq
        exact hopen (List.cons.inj heq).1
      · intro text tail heq
        rw [(List.cons.inj heq).1] at hsound
        simp [Token.isSound] at hsound
    simp only [hvar]
    exact .leave (.ok (Expr.var name)) [t]

theorem readClosing_oneAhead (e : Expr) : OneAhead (readClosing e) := by
  refine .of_cons (readClosing_suffix e) fun t => ?_
  by_cases hclose : t = .symbol ')'
  · subst hclose
    exact .leave (.ok e) []
  · have hfault : ∀ rest, readClosing e (t :: rest) =
        .fail (faultAt .expectedClosingParen (t :: rest)) (t :: rest) := by
      intro rest
      rw [readClosing.eq_2 _ _ fun tail heq => hclose (List.cons.inj heq).1]
    simp only [hfault]
    exact oneAhead_fault _ t

theorem primary_oneAhead (hinner : OneAhead inner.read) : OneAhead (primary inner).read := by
  refine .of_cons (primary inner).suffix fun t => ?_
  show OneAhead fun rest => readPrimary inner (t :: rest)
  cases t with
  | identifier name => exact readReference_oneAhead hinner name
  | number x => exact .leave (.ok (Expr.number x)) []
  | symbol s =>
    by_cases hopen : s = '('
    · subst hopen
      exact hinner.bind readClosing_oneAhead readClosing_suffix
    · have hfault : ∀ rest, readPrimary inner (.symbol s :: rest) =
          .fail .expectedExpression (.symbol s :: rest) := by
        intro rest
        rw [readPrimary.eq_4 _ _ (by simp) (by simp) (by simp [hopen])]
        rfl
      simp only [hfault]
      exact .leave (.error .expectedExpression) [.symbol s]
  | define => exact oneAhead_fault _ .define
  | declare => exact oneAhead_fault _ .declare
  | malformed text => exact oneAhead_fault _ (.malformed text)

theorem readLinks_oneAhead {operand : Reader Expr} (hoperand : OneAhead operand.read)
    (done : List Link) : OneAhead (readLinks table operand done) := by
  intro a
  induction hn : a.length using Nat.strongRecOn generalizing a done with
  | ind n ih =>
    intro b p hne h b'
    obtain ⟨t, tail, rfl⟩ := List.exists_cons_of_ne_nil
      (OneAhead.ne_nil_of_left (readLinks_suffix table operand done) hne h)
    by_cases hop : ∃ op precedence, t = .symbol op ∧ table.get? op = some precedence
    · obtain ⟨op, precedence, rfl, hop⟩ := hop
      rw [List.cons_append, readLinks_eq_bind hop] at h
      obtain ⟨⟨result, left⟩, -, hall, hrest⟩ :=
        hoperand.first_of_bind (fun _ _ => readLinks_suffix table operand _ _) hne h
      rw [List.cons_append, readLinks_eq_bind hop, hall b']
      cases result with
      | error e => exact OneAhead.leave (.error e) [] left b p hne hrest b'
      | ok rhs =>
        have hlt : left.length < n := by
          have hread := hall []
          rw [List.append_nil, Parsed.followedBy, List.append_nil] at hread
          rw [← hn]
          exact Nat.lt_succ_of_le (operand.length_le_of_read hread)
        exact ih _ hlt _ left rfl b p hne hrest b'
    · have hend : ∀ rest, readLinks table operand done (t :: rest) =
          .ok done.reverse (t :: rest) := by
        intro rest
        refine readLinks_of_notOperator operand done fun op tail' heq => ?_
        rw [Option.eq_none_iff_forall_ne_some]
        intro precedence hget
        exact hop ⟨op, precedence, (List.cons.inj heq).1, hget⟩
      rw [List.cons_append, hend] at h
      rw [List.cons_append, hend]
      exact OneAhead.leave (.ok done.reverse) [t] tail b p hne h b'

theorem chain_oneAhead {operand : Reader Expr} (hoperand : OneAhead operand.read) :
    OneAhead (chain table operand).read := by
  refine hoperand.bind (fun first => (readLinks_oneAhead hoperand []).map (groupChain first)) ?_
  intro first tokens
  rw [Parsed.rest_map]
  exact readLinks_suffix table operand [] tokens

/-- Expressions look one token ahead, however many are open. -/
theorem expression_oneAhead (table : PrecedenceTable) (levels : Nat) :
    OneAhead (expression table levels).read := by
  induction levels with
  | zero => exact .leave (.error (.nestingTooDeep nestingLimit)) []
  | succ levels ih => exact chain_oneAhead (primary_oneAhead ih)

end Expressions

/-! ## Constructs -/

theorem readParams_oneAhead (done : List String) : OneAhead (readParams done) := by
  intro a
  induction a generalizing done with
  | nil =>
    intro b p hne h
    exact (OneAhead.ne_nil_of_left (readParams_suffix done) hne h rfl).elim
  | cons t tail ih =>
    cases t with
    | identifier name => exact ih (name :: done)
    | symbol s =>
      by_cases hclose : s = ')'
      · subst hclose
        exact OneAhead.leave (.ok done.reverse) [] tail
      · have hfault : ∀ rest, readParams done (.symbol s :: rest) =
            .fail .expectedParamListClose (.symbol s :: rest) := by
          intro rest
          rw [readParams.eq_3 _ _ (by simp) (by simp [hclose])]
          rfl
        simp only [List.cons_append, hfault]
        exact OneAhead.leave (.error .expectedParamListClose) [.symbol s] tail
    | define => exact oneAhead_fault .expectedParamListClose .define tail
    | declare => exact oneAhead_fault .expectedParamListClose .declare tail
    | number x => exact oneAhead_fault .expectedParamListClose (.number x) tail
    | malformed text => exact oneAhead_fault .expectedParamListClose (.malformed text) tail

theorem readSignature_oneAhead (name : String) : OneAhead (readSignature name) := by
  refine .of_cons (readSignature_suffix name) fun t => ?_
  by_cases hopen : t = .symbol '('
  · subst hopen
    exact (readParams_oneAhead []).map (Prototype.mk name)
  · have hfault : ∀ rest, readSignature name (t :: rest) =
        .fail (faultAt .expectedParamListOpen (t :: rest)) (t :: rest) := by
      intro rest
      rw [readSignature.eq_2 _ _ fun tail heq => hopen (List.cons.inj heq).1]
    simp only [hfault]
    exact oneAhead_fault _ t

theorem readPrototype_oneAhead : OneAhead readPrototype := by
  refine .of_cons readPrototype_suffix fun t => ?_
  cases t with
  | identifier name => exact readSignature_oneAhead name
  | define => exact oneAhead_fault .expectedFunctionName .define
  | declare => exact oneAhead_fault .expectedFunctionName .declare
  | number x => exact oneAhead_fault .expectedFunctionName (.number x)
  | symbol s => exact oneAhead_fault .expectedFunctionName (.symbol s)
  | malformed text => exact oneAhead_fault .expectedFunctionName (.malformed text)

theorem readConstruct_oneAhead (table : PrecedenceTable) : OneAhead (readConstruct table) := by
  have hexpression : OneAhead (readExpression table) := expression_oneAhead table nestingLimit
  have htop : OneAhead fun tokens =>
      (readExpression table tokens).map fun body => Construct.expression (.ofExpr body) :=
    hexpression.map _
  refine .of_cons (readConstruct_suffix table) fun t => ?_
  cases t with
  | define =>
    refine readPrototype_oneAhead.bind (fun proto => hexpression.map _) fun proto tokens => ?_
    rw [Parsed.rest_map]
    exact readExpression_suffix table tokens
  | declare => exact readPrototype_oneAhead.map Construct.declaration
  | symbol s =>
    by_cases hsemicolon : s = ';'
    · subst hsemicolon
      exact .leave (.ok Construct.separator) []
    · have hread : ∀ rest, readConstruct table (.symbol s :: rest) =
          (readExpression table (.symbol s :: rest)).map fun body => .expression (.ofExpr body) := by
        intro rest
        rw [readConstruct.eq_5 _ _ (by simp) (by simp [hsemicolon]) (by simp) (by simp)]
      simp only [hread]
      exact htop.behind (.symbol s)
  | identifier name => exact htop.behind (.identifier name)
  | number x => exact htop.behind (.number x)
  | malformed text => exact htop.behind (.malformed text)

/-- Where reading goes on behind a construct or a fault, with a token in sight, and what was read
    up to there, does not depend on the tokens behind the one in sight. -/
theorem resume_oneAhead (table : PrecedenceTable) {a b d : List Token} (hd : d ≠ [])
    (h : (readConstruct table (a ++ b)).resume = d ++ b) (b' : List Token) :
    (readConstruct table (a ++ b')).result = (readConstruct table (a ++ b)).result ∧
      (readConstruct table (a ++ b')).resume = d ++ b' := by
  rcases hread : readConstruct table (a ++ b) with ⟨result, rest⟩
  rw [hread] at h
  cases result with
  | ok c =>
    obtain rfl : rest = d ++ b := h
    rw [readConstruct_oneAhead table a b ⟨.ok c, d⟩ hd hread b']
    exact ⟨rfl, rfl⟩
  | error e =>
    -- the fault is at a token that is skipped
    cases rest with
    | nil =>
      have hnil : d ++ b = [] := h.symm
      exact (hd (List.append_eq_nil_iff.mp hnil).1).elim
    | cons t rest =>
      obtain rfl : rest = d ++ b := h
      rw [readConstruct_oneAhead table a b ⟨.error e, t :: d⟩ (by simp) hread b']
      exact ⟨rfl, rfl⟩

end Formulary

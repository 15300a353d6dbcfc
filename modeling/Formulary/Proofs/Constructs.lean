import Formulary.Proofs.Nesting

/-!
# The grammar of constructs

    construct ::= ';' | expr | 'extern' prototype | 'def' prototype expr
    prototype ::= identifier '(' identifier* ')'

`ConstructPhrase table n c k` says that the tokens `c` are the construct `k`, with at most `n`
expressions nested in it. What is read from the front of a program is a construct of this grammar,
and what is a construct of the grammar is read, unless it is refused for its depth.

* `Prototype.spelling`, `ConstructPhrase`: the grammar.
* `readConstruct_sound`: what is read is a construct.
* `ConstructPhrase.read_or_tooDeep`: a construct is read or refused for its depth.
* `ConstructPhrase.isSound`: there are no refused numbers in a construct.
-/

namespace Formulary

variable {table : PrecedenceTable} {n : Nat}

/-! ## The grammar -/

/-- The tokens that a prototype is written with. -/
def Prototype.spelling (p : Prototype) : List Token :=
  .identifier p.name :: .symbol '(' :: (p.params.map .identifier ++ [.symbol ')'])

/-- The tokens are a construct with at most `n` expressions nested in it. -/
inductive ConstructPhrase (table : PrecedenceTable) (n : Nat) : List Token → Construct → Prop
  | separator : ConstructPhrase table n [.symbol ';'] .separator
  | expression {c : List Token} {body : Expr} (hbody : Phrase table n c body) :
      ConstructPhrase table n c (.expression (.ofExpr body))
  | declaration (p : Prototype) : ConstructPhrase table n (.declare :: p.spelling) (.declaration p)
  | definition (p : Prototype) {c : List Token} {body : Expr} (hbody : Phrase table n c body) :
      ConstructPhrase table n (.define :: (p.spelling ++ c)) (.definition ⟨p, body⟩)

/-! ## What is read is a construct -/

theorem readParams_sound {done params : List String} {tokens rest : List Token}
    (h : readParams done tokens = .ok params rest) :
    ∃ more, params = done.reverse ++ more ∧
      tokens = more.map .identifier ++ .symbol ')' :: rest := by
  fun_induction readParams done tokens with
  | case1 done name tail ih =>
    obtain ⟨more, hparams, rfl⟩ := ih h
    refine ⟨name :: more, ?_, rfl⟩
    rw [hparams, List.reverse_cons, List.append_assoc, List.singleton_append]
  | case2 done tail =>
    obtain ⟨rfl, rfl⟩ := Parsed.ok_inj.mp h
    exact ⟨[], by simp, rfl⟩
  | case3 => exact (Parsed.fail_ne_ok _ _ _ _ h).elim

theorem readPrototype_sound {p : Prototype} {tokens rest : List Token}
    (h : readPrototype tokens = .ok p rest) : tokens = p.spelling ++ rest := by
  unfold readPrototype at h
  split at h
  · next name tail =>
    unfold readSignature at h
    split at h
    · next inner =>
      obtain ⟨params, hparams, rfl⟩ := Parsed.map_eq_ok_iff.mp h
      obtain ⟨more, rfl, rfl⟩ := readParams_sound hparams
      simp [Prototype.spelling]
    · exact (Parsed.fail_ne_ok _ _ _ _ h).elim
  · exact (Parsed.fail_ne_ok _ _ _ _ h).elim

/-- What is read, while there are tokens, is a construct in which at most `nestingLimit` expressions
    are nested. -/
theorem readConstruct_sound {k : Construct} {tokens rest : List Token} (hne : tokens ≠ [])
    (h : readConstruct table tokens = .ok k rest) :
    ∃ c, tokens = c ++ rest ∧ ConstructPhrase table nestingLimit c k := by
  unfold readConstruct at h
  split at h
  · exact (hne rfl).elim
  · obtain ⟨rfl, rfl⟩ := Parsed.ok_inj.mp h
    exact ⟨[.symbol ';'], rfl, .separator⟩
  · next tail =>
    obtain ⟨p, behind, hp, hbehind⟩ := Parsed.bind_eq_ok_iff.mp h
    obtain ⟨body, hbody, rfl⟩ := Parsed.map_eq_ok_iff.mp hbehind
    obtain ⟨c, rfl, hphrase, -⟩ := expression_sound table nestingLimit behind body rest hbody
    refine ⟨_, ?_, .definition p hphrase⟩
    rw [readPrototype_sound hp, List.cons_append, List.append_assoc]
  · next tail =>
    obtain ⟨p, hp, rfl⟩ := Parsed.map_eq_ok_iff.mp h
    refine ⟨_, ?_, .declaration p⟩
    rw [readPrototype_sound hp, List.cons_append]
  · obtain ⟨body, hbody, rfl⟩ := Parsed.map_eq_ok_iff.mp h
    obtain ⟨c, hc, hphrase, -⟩ := expression_sound table nestingLimit tokens body rest hbody
    exact ⟨c, hc, .expression hphrase⟩

/-! ## Constructs are read -/

theorem readPrototype_spelling (p : Prototype) (rest : List Token) :
    readPrototype (p.spelling ++ rest) = .ok p rest := by
  show readSignature p.name (.symbol '(' :: (p.params.map .identifier ++ [.symbol ')'] ++ rest)) = _
  rw [List.append_assoc, List.singleton_append, readSignature, readParams_identifiers]
  rfl

/-- The token can stand at the front of an expression. -/
def Token.opensExpression : Token → Bool
  | identifier _ => true
  | number _ => true
  | symbol s => s = '('
  | _ => false

theorem PrimaryPhrase.opens {c : List Token} {e : Expr} :
    PrimaryPhrase table n c e → ∃ t rest, c = t :: rest ∧ t.opensExpression = true
  | .number x => ⟨_, _, rfl, rfl⟩
  | .var name => ⟨_, _, rfl, rfl⟩
  | .callEmpty callee => ⟨_, _, rfl, rfl⟩
  | .call callee _ => ⟨_, _, rfl, rfl⟩
  | .parens _ => ⟨_, _, rfl, rfl⟩

theorem Phrase.opens {c : List Token} {e : Expr} (h : Phrase table n c e) :
    ∃ t rest, c = t :: rest ∧ t.opensExpression = true := by
  cases h with
  | chain hfirst hlinks hgroup =>
    obtain ⟨t, rest, rfl, ht⟩ := hfirst.opens
    exact ⟨t, rest ++ _, rfl, ht⟩

/-- Where an expression begins, an expression is read. -/
theorem readConstruct_of_opens {t : Token} (ht : t.opensExpression = true) (rest : List Token) :
    readConstruct table (t :: rest) =
      (readExpression table (t :: rest)).map fun body => .expression (.ofExpr body) := by
  rw [readConstruct.eq_5 _ _ (by simp)]
  · intro tail heq
    rw [(List.cons.inj heq).1] at ht
    simp [Token.opensExpression] at ht
  · intro tail heq
    rw [(List.cons.inj heq).1] at ht
    simp [Token.opensExpression] at ht
  · intro tail heq
    rw [(List.cons.inj heq).1] at ht
    simp [Token.opensExpression] at ht

/-- A construct is read or refused for its depth. -/
theorem ConstructPhrase.read_or_tooDeep (htable : table.SparesPunctuation) {c : List Token}
    {k : Construct} (h : ConstructPhrase table n c k) :
    (readConstruct table c).TooDeep ∨ readConstruct table c = .ok k [] := by
  cases h with
  | separator => exact .inr rfl
  | expression hbody =>
    obtain ⟨t, rest, rfl, ht⟩ := hbody.opens
    rw [readConstruct_of_opens ht]
    rcases hbody.read_or_tooDeep htable nestingLimit with hdeep | hread
    · exact .inl (hdeep.bind _)
    · exact .inr (Parsed.map_eq_ok_iff.mpr ⟨_, hread, rfl⟩)
  | declaration p =>
    have hread := readPrototype_spelling p []
    rw [List.append_nil] at hread
    exact .inr (Parsed.map_eq_ok_iff.mpr ⟨p, hread, rfl⟩)
  | @definition p c body hbody =>
    have hbind : readConstruct table (.define :: (p.spelling ++ c)) =
        (readExpression table c).map fun body => .definition ⟨p, body⟩ := by
      rw [readConstruct, readPrototype_spelling]
      rfl
    rw [hbind]
    rcases hbody.read_or_tooDeep htable nestingLimit with hdeep | hread
    · exact .inl (hdeep.bind _)
    · exact .inr (Parsed.map_eq_ok_iff.mpr ⟨_, hread, rfl⟩)

/-! ## Constructs have no refused numbers -/

mutual

theorem Phrase.isSound {n : Nat} {c : List Token} {e : Expr} :
    Phrase table n c e → ∀ t ∈ c, t.isSound = true
  | .chain hfirst hlinks _ => by
    intro t ht
    rcases List.mem_append.mp ht with ht | ht
    · exact hfirst.isSound t ht
    · exact hlinks.isSound t ht

theorem PrimaryPhrase.isSound {n : Nat} {c : List Token} {e : Expr} :
    PrimaryPhrase table n c e → ∀ t ∈ c, t.isSound = true
  | .number x => by simp [Token.isSound]
  | .var name => by simp [Token.isSound]
  | .callEmpty callee => by simp [Token.isSound]
  | .call callee hargs => by
    intro t ht
    simp only [List.mem_cons, List.mem_append, List.not_mem_nil, or_false] at ht
    rcases ht with rfl | rfl | ht | rfl
    · rfl
    · rfl
    · exact hargs.isSound t ht
    · rfl
  | .parens hinner => by
    intro t ht
    simp only [List.mem_cons, List.mem_append, List.not_mem_nil, or_false] at ht
    rcases ht with rfl | ht | rfl
    · rfl
    · exact hinner.isSound t ht
    · rfl

theorem LinkPhrases.isSound {n : Nat} {d : List Token} {links : List Link} :
    LinkPhrases table n d links → ∀ t ∈ d, t.isSound = true
  | .nil => by simp
  | .cons _ hoperand hlinks => by
    intro t ht
    simp only [List.mem_cons, List.mem_append] at ht
    rcases ht with rfl | ht | ht
    · rfl
    · exact hoperand.isSound t ht
    · exact hlinks.isSound t ht

theorem ArgumentPhrases.isSound {n : Nat} {c : List Token} {args : List Expr} :
    ArgumentPhrases table n c args → ∀ t ∈ c, t.isSound = true
  | .last harg => harg.isSound
  | .cons harg hargs => by
    intro t ht
    simp only [List.mem_append, List.mem_cons] at ht
    rcases ht with ht | rfl | ht
    · exact harg.isSound t ht
    · rfl
    · exact hargs.isSound t ht

end

theorem Prototype.isSound_spelling (p : Prototype) : ∀ t ∈ p.spelling, t.isSound = true := by
  intro t ht
  simp only [Prototype.spelling, List.mem_cons, List.mem_append, List.mem_map, List.not_mem_nil,
    or_false] at ht
  rcases ht with rfl | rfl | ⟨name, -, rfl⟩ | rfl <;> rfl

theorem ConstructPhrase.isSound {c : List Token} {k : Construct}
    (h : ConstructPhrase table n c k) : ∀ t ∈ c, t.isSound = true := by
  cases h with
  | separator => simp [Token.isSound]
  | expression hbody => exact hbody.isSound
  | declaration p =>
    intro t ht
    rcases List.mem_cons.mp ht with rfl | ht
    · rfl
    · exact p.isSound_spelling t ht
  | definition p hbody =>
    intro t ht
    simp only [List.mem_cons, List.mem_append] at ht
    rcases ht with rfl | ht | ht
    · rfl
    · exact p.isSound_spelling t ht
    · exact hbody.isSound t ht

end Formulary

import Formulary.Grammar.Program
import Formulary.Proofs.NumberText
import Formulary.Proofs.Phrases
import Formulary.Proofs.Scanning

/-!
# Reading what is written

The text of an expression has every grouping written out: a binary operation stands in parentheses,
and arguments are parted by commas. Its tokens are the spelling of the expression, whatever follows
that does not go on with the last word or number, and the spelling is a phrase of the grammar whose
tree is the expression. Reading gives the expression back, unless more expressions are nested in it
than may be open at once.

* `Printable`: expressions whose names and numbers can be read.
* `Expr.depth`: how many parentheses and argument lists are open at once.
* `Expr.spelling`: the tokens that an expression is written with.
* `Printable.tokens_display`: the text of an expression has the tokens of its spelling.
* `Printable.phrase`: the spelling is a phrase.
* `Printable.read_tooDeep`: an expression that is too deep is refused for that.
* `parseExpr_display`: all together, also for definitions.
-/

namespace Formulary

/-! ## Expressions that can be read -/

/-- Names are identifiers, operators are those of the language, and numbers are finite and not
    negative. -/
inductive Printable : Expr → Prop
  | number {x : Double} (hfinite : x.isFinite = true) (hsign : x.isNegative = false) :
      Printable (.number x)
  | var {name : String} (hname : IsIdentifier name) : Printable (.var name)
  | binary {op : Char} {lhs rhs : Expr} (hop : op ∈ ['<', '+', '-', '*'])
      (hlhs : Printable lhs) (hrhs : Printable rhs) : Printable (.binary op lhs rhs)
  | call {callee : String} {args : List Expr} (hcallee : IsIdentifier callee)
      (hargs : ∀ e ∈ args, Printable e) : Printable (.call callee args)

namespace Expr

mutual

/-- How many expressions are open at once inside an expression: one for the parentheses of a binary
    operation or for an argument, and those inside it. -/
def depth : Expr → Nat
  | number _ => 0
  | var _ => 0
  | binary _ lhs rhs => 1 + max lhs.depth rhs.depth
  | call _ args => depthInCall args

/-- One more than the greatest depth of the arguments of a call, and nought without arguments. -/
def depthInCall : List Expr → Nat
  | [] => 0
  | e :: rest => max (1 + e.depth) (depthInCall rest)

end

mutual

/-- The tokens that an expression is written with. -/
def spelling : Expr → List Token
  | number x => [.number x]
  | var name => [.identifier name]
  | binary op lhs rhs =>
    .symbol '(' :: (lhs.spelling ++ .symbol op :: (rhs.spelling ++ [.symbol ')']))
  | call callee args => .identifier callee :: .symbol '(' :: (spellingInCall args ++ [.symbol ')'])

/-- The tokens of arguments, parted by commas. -/
def spellingInCall : List Expr → List Token
  | [] => []
  | e :: rest => e.spelling ++ spellingBehind rest

/-- The tokens of more arguments, each behind a comma. -/
def spellingBehind : List Expr → List Token
  | [] => []
  | e :: rest => .symbol ',' :: (e.spelling ++ spellingBehind rest)

end

/-- A spelling begins with a token that neither closes an argument list nor is refused. -/
theorem spelling_head (e : Expr) :
    ∃ t rest, e.spelling = t :: rest ∧ t ≠ .symbol ')' ∧ t.isSound = true := by
  cases e with
  | number x => exact ⟨_, _, by rw [spelling], by simp, rfl⟩
  | var name => exact ⟨_, _, by rw [spelling], by simp, rfl⟩
  | binary op lhs rhs => exact ⟨_, _, by rw [spelling], by simp, rfl⟩
  | call callee args => exact ⟨_, _, by rw [spelling], by simp, rfl⟩

end Expr

/-! ## The tokens of a text -/

section Text

variable {strict : Bool}

/-- The text does not go on with a word or a number. -/
def Boundary (rest : List Char) : Prop :=
  ∀ x tail, rest = x :: tail → x.isAlphanum = false ∧ isNumeric x = false

theorem boundary_nil : Boundary [] := by
  intro x tail h
  simp at h

theorem boundary_cons {x : Char} (h : x.isAlphanum = false ∧ isNumeric x = false)
    (rest : List Char) : Boundary (x :: rest) := by
  intro y tail heq
  obtain ⟨rfl, -⟩ := List.cons.inj heq
  exact h

/-- An identifier is read up to a boundary. -/
theorem tokens_identifier {name : String} (hname : IsIdentifier name) {rest : List Char}
    (hrest : Boundary rest) :
    tokens strict (name.toList ++ rest) = .identifier name :: tokens strict rest := by
  have hword := hname.word
  cases htext : name.toList with
  | nil => simp [htext, isWord] at hword
  | cons x word =>
    rw [htext, isWord, Bool.and_eq_true, List.all_eq_true] at hword
    obtain ⟨htake, hdrop⟩ := span_boundary hword.2 fun x tail h => (hrest x tail h).1
    have htoken : Token.ofWord (x :: word) = .identifier name := by
      rw [← htext, Token.ofWord_eq_identifier_iff, String.ofList_toList]
      exact ⟨rfl, hname.notDefine, hname.notDeclare⟩
    rw [List.cons_append, tokens_word hword.1, htake, hdrop, htoken]

/-- A number is read up to a boundary. -/
theorem tokens_number {text : List Char} {x : Double} (h : Double.IsLiteral text x)
    {rest : List Char} (hrest : Boundary rest) :
    tokens strict (text ++ rest) = .number x :: tokens strict rest := by
  have hsound := h.positional.soundPart_eq
  have htoken : Token.ofLiteral strict text = .number x := by
    simp [Token.ofLiteral, hsound, h.value]
  obtain ⟨d, digits, rfl⟩ := List.exists_cons_of_ne_nil h.positional.ne_nil
  have hnumeric : ∀ c ∈ digits, isNumeric c = true := fun c hc =>
    h.positional.isNumeric_of_mem (List.mem_cons_of_mem d hc)
  obtain ⟨htake, hdrop⟩ := span_boundary hnumeric fun x tail h => (hrest x tail h).2
  rw [List.cons_append, tokens_literal (h.positional.isNumeric_of_mem (by simp)), htake, hdrop,
    htoken]

theorem isSymbol_of_mem {x : Char} (h : x ∈ ['(', ')', ',', '<', '+', '-', '*']) : IsSymbol x := by
  simp only [List.mem_cons, List.not_mem_nil, or_false] at h
  rcases h with rfl | rfl | rfl | rfl | rfl | rfl | rfl <;>
    exact ⟨by decide, by decide, by decide, by decide⟩

theorem tokens_punctuation {x : Char} (h : x ∈ ['(', ')', ',', '<', '+', '-', '*'])
    (rest : List Char) : tokens strict (x :: rest) = .symbol x :: tokens strict rest :=
  tokens_symbol (isSymbol_of_mem h) rest

theorem tokens_space (rest : List Char) : tokens strict (' ' :: rest) = tokens strict rest :=
  tokens_blank (by decide) rest

/-! ## The text of an expression -/

theorem Expr.display_binary (op : Char) (lhs rhs : Expr) :
    (Expr.binary op lhs rhs).display.toList =
      '(' :: (lhs.display.toList ++ ' ' :: op :: ' ' :: (rhs.display.toList ++ [')'])) := by
  rw [display]
  simp [String.toList_append]

/-- The text of more arguments, each behind a comma. -/
def Expr.displayBehind (args : List Expr) : List Char :=
  args.flatMap fun e => ',' :: ' ' :: e.display.toList

theorem Expr.intercalate_displayAll (e : Expr) (rest : List Expr) :
    (String.intercalate ", " (displayAll (e :: rest))).toList =
      e.display.toList ++ displayBehind rest := by
  induction rest generalizing e with
  | nil =>
    rw [displayAll, displayAll]
    simp [displayBehind]
  | cons e' rest ih =>
    have hlist : displayAll (e :: e' :: rest) = e.display :: e'.display :: displayAll rest := by
      rw [displayAll, displayAll]
    have hlist' : e'.display :: displayAll rest = displayAll (e' :: rest) := by
      rw [displayAll]
    rw [hlist, String.intercalate_cons_cons, hlist', String.toList_append, String.toList_append, ih]
    simp [displayBehind]

theorem Expr.display_call_nil (callee : String) :
    (Expr.call callee []).display.toList = callee.toList ++ ['(', ')'] := by
  rw [display, displayAll]
  simp [String.toList_append]

theorem Expr.display_call_cons (callee : String) (e : Expr) (rest : List Expr) :
    (Expr.call callee (e :: rest)).display.toList =
      callee.toList ++ '(' :: (e.display.toList ++ (displayBehind rest ++ [')'])) := by
  rw [display, String.toList_append, String.toList_append, String.toList_append,
    intercalate_displayAll]
  simp

theorem Expr.boundary_displayBehind (args : List Expr) (rest : List Char) :
    Boundary (displayBehind args ++ ')' :: rest) := by
  cases args with
  | nil => exact boundary_cons (by decide) rest
  | cons e args => exact boundary_cons (by decide) _

/-- Arguments have the tokens of their spelling if each of them has. -/
theorem Expr.tokens_displayBehind {args : List Expr}
    (h : ∀ e ∈ args, ∀ rest, Boundary rest →
      tokens strict (e.display.toList ++ rest) = e.spelling ++ tokens strict rest)
    (rest : List Char) :
    tokens strict (displayBehind args ++ ')' :: rest) =
      spellingBehind args ++ .symbol ')' :: tokens strict rest := by
  induction args with
  | nil =>
    rw [spellingBehind]
    exact tokens_punctuation (by simp) rest
  | cons e args ih =>
    have he := h e (by simp) _ (boundary_displayBehind args rest)
    have hargs := ih fun e' he' => h e' (List.mem_cons_of_mem e he')
    have htext : displayBehind (e :: args) ++ ')' :: rest =
        ',' :: ' ' :: (e.display.toList ++ (displayBehind args ++ ')' :: rest)) := by
      simp [displayBehind]
    rw [htext, tokens_punctuation (by simp), tokens_space, he, hargs, spellingBehind]
    simp

/-- The text of an expression has the tokens of its spelling, up to a boundary. -/
theorem Printable.tokens_display {e : Expr} (h : Printable e) {rest : List Char}
    (hrest : Boundary rest) :
    tokens strict (e.display.toList ++ rest) = e.spelling ++ tokens strict rest := by
  induction h generalizing rest with
  | number hfinite hsign =>
    rw [Expr.display, Expr.spelling]
    exact tokens_number (Double.toText_isLiteral hfinite hsign) hrest
  | var hname =>
    rw [Expr.display, Expr.spelling]
    exact tokens_identifier hname hrest
  | @binary op lhs rhs hop hlhs hrhs ihl ihr =>
    have hmem : op ∈ ['(', ')', ',', '<', '+', '-', '*'] := by
      simp only [List.mem_cons, List.not_mem_nil, or_false] at hop ⊢
      tauto
    have htext : (Expr.binary op lhs rhs).display.toList ++ rest =
        '(' :: (lhs.display.toList ++ ' ' :: op :: ' ' :: (rhs.display.toList ++ ')' :: rest)) := by
      rw [Expr.display_binary]
      simp
    rw [htext, tokens_punctuation (by simp), ihl (boundary_cons (by decide) _), tokens_space,
      tokens_punctuation hmem, tokens_space, ihr (boundary_cons (by decide) _),
      tokens_punctuation (by simp), Expr.spelling]
    simp
  | @call callee args hcallee hargs ih =>
    cases args with
    | nil =>
      have htext : (Expr.call callee []).display.toList ++ rest =
          callee.toList ++ '(' :: ')' :: rest := by
        rw [Expr.display_call_nil]
        simp
      rw [htext, tokens_identifier hcallee (boundary_cons (by decide) _),
        tokens_punctuation (by simp), tokens_punctuation (by simp), Expr.spelling,
        Expr.spellingInCall]
      simp
    | cons e args =>
      have htext : (Expr.call callee (e :: args)).display.toList ++ rest =
          callee.toList ++ '(' :: (e.display.toList ++
            (Expr.displayBehind args ++ ')' :: rest)) := by
        rw [Expr.display_call_cons]
        simp
      have hmore := @Expr.tokens_displayBehind strict args
        (fun e' he' rest hrest => ih e' (List.mem_cons_of_mem e he') hrest) rest
      rw [htext, tokens_identifier hcallee (boundary_cons (by decide) _),
        tokens_punctuation (by simp),
        ih e (by simp) (Expr.boundary_displayBehind args rest), hmore, Expr.spelling,
        Expr.spellingInCall]
      simp

end Text

/-! ## Reading a spelling -/

theorem PrecedenceTable.get?_standard {op : Char} (h : op ∈ ['<', '+', '-', '*']) :
    ∃ precedence, PrecedenceTable.standard.get? op = some precedence := by
  simp only [List.mem_cons, List.not_mem_nil, or_false] at h
  rcases h with rfl | rfl | rfl | rfl
  · exact ⟨10, by decide⟩
  · exact ⟨20, by decide⟩
  · exact ⟨20, by decide⟩
  · exact ⟨40, by decide⟩

theorem PrecedenceTable.standard_sparesPunctuation :
    PrecedenceTable.standard.SparesPunctuation :=
  ⟨by decide, by decide, by decide⟩

theorem PrimaryPhrase.toPhrase {table : PrecedenceTable} {n : Nat} {c : List Token} {e : Expr}
    (h : PrimaryPhrase table n c e) : Phrase table (n + 1) c e := by
  have hchain := Phrase.chain h .nil (.single e)
  rwa [List.append_nil] at hchain

theorem argumentPhrases_spelling {table : PrecedenceTable} {n : Nat} (e : Expr) {args : List Expr}
    (h : ∀ a ∈ e :: args, Phrase table n a.spelling a) :
    ArgumentPhrases table n (e.spelling ++ Expr.spellingBehind args) (e :: args) := by
  induction args generalizing e with
  | nil =>
    rw [Expr.spellingBehind, List.append_nil]
    exact .last (h e (by simp))
  | cons e' args ih =>
    rw [Expr.spellingBehind]
    exact .cons (h e (by simp)) (ih e' fun a ha => h a (List.mem_cons_of_mem e ha))

theorem Expr.depth_lt_of_mem {args : List Expr} {e : Expr} (h : e ∈ args) :
    e.depth < depthInCall args := by
  induction args with
  | nil => simp at h
  | cons a args ih =>
    rw [depthInCall]
    rcases List.mem_cons.mp h with rfl | h
    · omega
    · have := ih h
      omega

theorem Printable.phrase {e : Expr} (h : Printable e) {n : Nat} (hn : e.depth ≤ n) :
    PrimaryPhrase .standard n e.spelling e := by
  induction h generalizing n with
  | number hfinite hsign =>
    rw [Expr.spelling]
    exact .number _
  | var hname =>
    rw [Expr.spelling]
    exact .var _
  | @binary op lhs rhs hop hlhs hrhs ihl ihr =>
    rw [Expr.depth] at hn
    obtain ⟨k, rfl⟩ : ∃ k, n = k + 1 := ⟨n - 1, by omega⟩
    obtain ⟨precedence, hprecedence⟩ := PrecedenceTable.get?_standard hop
    have hlinks := LinkPhrases.cons hprecedence (ihr (n := k) (by omega)) .nil
    have hgroup : Grouped lhs [⟨op, precedence, rhs⟩] (.binary op lhs rhs) :=
      @Grouped.split lhs lhs rhs [] [] ⟨op, precedence, rhs⟩ (by simp) (by simp) (.single lhs)
        (.single rhs)
    have hparens := PrimaryPhrase.parens (Phrase.chain (ihl (n := k) (by omega)) hlinks hgroup)
    rw [Expr.spelling]
    simpa using hparens
  | @call callee args hcallee hargs ih =>
    rw [Expr.depth] at hn
    cases args with
    | nil =>
      rw [Expr.spelling, Expr.spellingInCall]
      exact .callEmpty callee
    | cons e args =>
      have hphrases : ∀ a ∈ e :: args, Phrase .standard n a.spelling a := by
        intro a ha
        have hlt := Expr.depth_lt_of_mem ha
        obtain ⟨k, rfl⟩ : ∃ k, n = k + 1 := ⟨n - 1, by omega⟩
        exact (ih a ha (by omega)).toPhrase
      rw [Expr.spelling, Expr.spellingInCall]
      exact .call callee (argumentPhrases_spelling e hphrases)

/-! ## Too deep an expression -/

/-- Reading ends because too many expressions are open. -/
def Parsed.TooDeep {α : Type} (p : Parsed α) : Prop :=
  p.result = .error (.nestingTooDeep nestingLimit)

/-- Nothing is read behind an expression that is refused. -/
theorem Parsed.TooDeep.bind {α β : Type} {p : Parsed α} (h : p.TooDeep)
    (next : α → List Token → Parsed β) : (p.bind next).TooDeep := by
  unfold TooDeep at h ⊢
  simp [Parsed.bind, h, Parsed.fail]

section TooDeep

variable {n : Nat}

/-- An expression that is as deep as there are levels left is refused, if its primary is whenever
    it is deeper. -/
theorem expression_tooDeep {e : Expr} {r : List Token} (hn : n ≤ e.depth)
    (h : ∀ k, k < e.depth → ((primary (expression .standard k)).read (e.spelling ++ r)).TooDeep) :
    ((expression .standard n).read (e.spelling ++ r)).TooDeep := by
  cases n with
  | zero => rfl
  | succ k => exact (h k hn).bind _

/-- Arguments are refused if one of them is, since those before it are read. -/
theorem readArguments_tooDeep {e : Expr} {args : List Expr}
    (hprint : ∀ a ∈ e :: args, Printable a)
    (h : ∀ a ∈ e :: args, ∀ r, n ≤ a.depth →
      ((expression .standard n).read (a.spelling ++ r)).TooDeep)
    (hdeep : n < Expr.depthInCall (e :: args)) (done : List Expr) (r : List Token) :
    (readArguments (expression .standard n) done
      (e.spelling ++ (Expr.spellingBehind args ++ r))).TooDeep := by
  induction args generalizing e done with
  | nil =>
    rw [Expr.depthInCall, Expr.depthInCall] at hdeep
    rw [readArguments_eq_bind]
    exact (h e (by simp) _ (by omega)).bind _
  | cons e' args ih =>
    rw [Expr.depthInCall] at hdeep
    by_cases hn : n ≤ e.depth
    · rw [readArguments_eq_bind]
      exact (h e (by simp) _ hn).bind _
    · obtain ⟨k, rfl⟩ : ∃ k, n = k + 1 := ⟨n - 1, by omega⟩
      have hphrase := ((hprint e (by simp)).phrase (n := k) (by omega)).toPhrase
      have hread := hphrase.read PrecedenceTable.standard_sparesPunctuation
        (.symbol ',' :: (e'.spelling ++ (Expr.spellingBehind args ++ r)))
        (mayFollow_symbol (by decide) (by decide) _ _) (notMalformed_symbol _ _)
      have htokens : Expr.spellingBehind (e' :: args) ++ r =
          .symbol ',' :: (e'.spelling ++ (Expr.spellingBehind args ++ r)) := by
        rw [Expr.spellingBehind]
        simp
      rw [htokens, readArguments_of_comma done hread]
      exact ih (fun a ha => hprint a (List.mem_cons_of_mem e ha))
        (fun a ha => h a (List.mem_cons_of_mem e ha)) (by omega) (e :: done)

/-- A primary that is deeper than there are levels left is refused for that. -/
theorem Printable.read_tooDeep {e : Expr} (h : Printable e) (hn : n < e.depth) (r : List Token) :
    ((primary (expression .standard n)).read (e.spelling ++ r)).TooDeep := by
  induction h generalizing n r with
  | number hfinite hsign => simp [Expr.depth] at hn
  | var hname => simp [Expr.depth] at hn
  | @binary op lhs rhs hop hlhs hrhs ihl ihr =>
    rw [Expr.depth] at hn
    have htokens : (Expr.binary op lhs rhs).spelling ++ r =
        .symbol '(' :: (lhs.spelling ++ .symbol op :: (rhs.spelling ++ .symbol ')' :: r)) := by
      rw [Expr.spelling]
      simp
    rw [htokens]
    change (((expression .standard n).read _).bind readClosing).TooDeep
    apply Parsed.TooDeep.bind
    by_cases hleft : n ≤ lhs.depth
    · exact expression_tooDeep hleft fun k hk => ihl hk _
    · -- the left operand is read, so that the right one is too deep
      obtain ⟨k, rfl⟩ : ∃ k, n = k + 1 := ⟨n - 1, by omega⟩
      obtain ⟨precedence, hprecedence⟩ := PrecedenceTable.get?_standard hop
      have hopen : NotOpening (.symbol op :: (rhs.spelling ++ .symbol ')' :: r)) := by
        intro rest heq
        obtain ⟨hsymbol, -⟩ := List.cons.inj heq
        obtain rfl := Token.symbol.inj hsymbol
        simp at hop
      have hread := (hlhs.phrase (n := k) (by omega)).read
        PrecedenceTable.standard_sparesPunctuation _ (fun _ => hopen) (notMalformed_symbol _ _)
      change (readChain .standard (primary (expression .standard k)) _).TooDeep
      rw [readChain, hread]
      change ((readLinks .standard _ [] _).map _).TooDeep
      rw [Parsed.rest_ok, readLinks_eq_bind hprecedence]
      exact ((ihr (by omega) _).bind _).bind _
  | @call callee args hcallee hargs ih =>
    rw [Expr.depth] at hn
    cases args with
    | nil => simp [Expr.depthInCall] at hn
    | cons e args =>
      obtain ⟨t, rest, hhead, hclose, hsound⟩ := e.spelling_head
      have htokens : (Expr.call callee (e :: args)).spelling ++ r =
          .identifier callee :: .symbol '(' ::
            (e.spelling ++ (Expr.spellingBehind args ++ .symbol ')' :: r)) := by
        rw [Expr.spelling, Expr.spellingInCall]
        simp
      have hdeep := readArguments_tooDeep hargs
        (fun a ha r hle => expression_tooDeep hle fun k hk => ih a ha hk r) hn []
        (.symbol ')' :: r)
      rw [htokens]
      change (readCall (expression .standard n) callee _).TooDeep
      rw [hhead, List.cons_append, readCall_of_head hclose hsound]
      rw [hhead, List.cons_append] at hdeep
      exact hdeep.bind _

end TooDeep

/-! ## Definitions -/

theorem readParams_identifiers (params : List String) (done : List String) (rest : List Token) :
    readParams done (params.map Token.identifier ++ .symbol ')' :: rest) =
      .ok (done.reverse ++ params) rest := by
  induction params generalizing done with
  | nil => simp [readParams]
  | cons param params ih =>
    rw [List.map_cons, List.cons_append, readParams, ih, List.reverse_cons, List.append_assoc,
      List.singleton_append]

section Text

variable {strict : Bool}

/-- The text of parameters, parted by blanks, has a token for each of them. -/
theorem tokens_params {params : List String} (h : ∀ p ∈ params, IsIdentifier p)
    (rest : List Char) :
    tokens strict ((String.intercalate " " params).toList ++ ')' :: rest) =
      params.map Token.identifier ++ .symbol ')' :: tokens strict rest := by
  induction params with
  | nil => simpa using tokens_punctuation (by simp) rest
  | cons param params ih =>
    have hparam := h param (by simp)
    have hparams := ih fun p hp => h p (List.mem_cons_of_mem param hp)
    cases params with
    | nil =>
      have htext : (String.intercalate " " [param]).toList ++ ')' :: rest =
          param.toList ++ ')' :: rest := by
        simp
      rw [htext, tokens_identifier hparam (boundary_cons (by decide) rest),
        tokens_punctuation (by simp)]
      rfl
    | cons next params =>
      have htext : (String.intercalate " " (param :: next :: params)).toList ++ ')' :: rest =
          param.toList ++
            ' ' :: ((String.intercalate " " (next :: params)).toList ++ ')' :: rest) := by
        rw [String.intercalate_cons_cons, String.toList_append, String.toList_append]
        simp
      rw [htext, tokens_identifier hparam (boundary_cons (by decide) _), tokens_space, hparams]
      rfl

/-- The text of a definition: the keyword, the name, the parameters and the body. -/
theorem Formula.tokens_display {f : Formula} (hname : IsIdentifier f.proto.name)
    (hparams : ∀ p ∈ f.proto.params, IsIdentifier p) (hbody : Printable f.body) :
    tokens strict f.display.toList =
      .define :: .identifier f.proto.name :: .symbol '(' ::
        (f.proto.params.map Token.identifier ++ .symbol ')' :: f.body.spelling) := by
  have hne : f.proto.isAnonymous = false := by
    rw [Prototype.isAnonymous, Bool.eq_false_iff]
    intro hempty
    have hword := hname.word
    rw [String.isEmpty_iff.mp hempty] at hword
    simp [isWord] at hword
  have htext : f.display.toList = 'd' :: 'e' :: 'f' :: ' ' :: (f.proto.name.toList ++
      '(' :: ((String.intercalate " " f.proto.params).toList ++
        ')' :: ' ' :: (f.body.display.toList ++ []))) := by
    rw [Formula.display, hne, Prototype.display]
    simp [String.toList_append]
  have hkeyword : ∀ rest, tokens strict ('d' :: 'e' :: 'f' :: ' ' :: rest) =
      .define :: tokens strict rest := by
    intro rest
    rw [tokens_word (by decide)]
    have htake : ('e' :: 'f' :: ' ' :: rest).takeWhile Char.isAlphanum = ['e', 'f'] := rfl
    have hdrop : ('e' :: 'f' :: ' ' :: rest).dropWhile Char.isAlphanum = ' ' :: rest := rfl
    rw [htake, hdrop, tokens_space]
    rfl
  rw [htext, hkeyword, tokens_identifier hname (boundary_cons (by decide) _),
    tokens_punctuation (by simp), tokens_params hparams, tokens_space,
    hbody.tokens_display boundary_nil, tokens_nil, List.append_nil]

end Text

/-! ## Reading texts -/

/-- The spelling of an expression is read as the expression if at most `nestingLimit` expressions
    are open at once, the whole one included. -/
theorem Printable.readExpression {e : Expr} (h : Printable e) (hn : e.depth < nestingLimit) :
    readExpression .standard e.spelling = .ok e [] := by
  have hphrase : Phrase .standard nestingLimit e.spelling e :=
    (h.phrase (n := 255) (Nat.le_of_lt_succ hn)).toPhrase
  have hread := hphrase.read PrecedenceTable.standard_sparesPunctuation []
    ⟨by simp [NotOperator], fun _ => by simp [NotOpening]⟩ (by simp [NotMalformed])
  rwa [List.append_nil] at hread

theorem exists_printable (n : Nat) : ∃ e, Printable e ∧ e.depth = n := by
  induction n with
  | zero => exact ⟨.var "x", .var ⟨by decide, by decide, by decide⟩, by rw [Expr.depth]⟩
  | succ n ih =>
    obtain ⟨e, hprint, hdepth⟩ := ih
    refine ⟨.binary '*' e e, .binary (by simp) hprint hprint, ?_⟩
    rw [Expr.depth, hdepth, Nat.max_self, Nat.add_comm]

/-- Reading the text of an expression gives the expression back if it is nested at most 255 deep,
    and is refused for its depth otherwise; reading the text of a definition gives the definition
    back and leaves nothing. -/
theorem parseExpr_display :
    (∀ e : Expr, Printable e →
      parseExpr e.display =
        if e.depth ≤ 255 then .ok e else .error (.nestingTooDeep 256)) ∧
    (∀ (strict : Bool) (f : Formula), IsIdentifier f.proto.name →
      (∀ p ∈ f.proto.params, IsIdentifier p) → Printable f.body → f.body.depth ≤ 255 →
      let first := readConstruct .standard (tokens strict f.display.toList)
      first.result = .ok (.definition f) ∧
        readConstruct .standard first.rest = .ok .endOfInput []) := by
  constructor
  · intro e hprint
    have htokens : tokens false e.display.toList = e.spelling := by
      have h := @Printable.tokens_display false e hprint [] boundary_nil
      rwa [tokens_nil, List.append_nil, List.append_nil] at h
    rw [parseExpr, htokens]
    split_ifs with hdepth
    · rw [hprint.readExpression (Nat.lt_succ_of_le hdepth)]
      rfl
    · have hdeep := expression_tooDeep (n := nestingLimit) (r := []) (Nat.lt_of_not_le hdepth)
        fun k hk => hprint.read_tooDeep hk []
      rw [List.append_nil] at hdeep
      change (readExpression .standard e.spelling).result = _ at hdeep
      simp only [hdeep]
      rfl
  · intro strict f hname hparams hbody hdepth first
    have hfirst : first = .ok (.definition f) [] := by
      have hread := hbody.readExpression (Nat.lt_succ_of_le hdepth)
      change readConstruct .standard (tokens strict f.display.toList) = _
      rw [Formula.tokens_display hname hparams hbody, readConstruct, readPrototype, readSignature,
        readParams_identifiers, List.reverse_nil, List.nil_append]
      change (readExpression .standard f.body.spelling).map _ = _
      rw [hread]
      rfl
    rw [hfirst]
    exact ⟨rfl, rfl⟩

/-- The limit is met by some expression and passed by another, and the definition
    `def half(x y) (mean(x, y) * 0.5)` is read back. -/
theorem parseExpr_display_half :
    (∃ e, Printable e ∧ e.depth = 255 ∧ parseExpr e.display = .ok e) ∧
    (∃ e, Printable e ∧ e.depth = 256 ∧ parseExpr e.display = .error (.nestingTooDeep 256)) ∧
    (readConstruct .standard (tokens true (Formula.mk ⟨"half", ["x", "y"]⟩
      (.binary '*' (.call "mean" [.var "x", .var "y"])
        (.number ⟨0x3fe0000000000000⟩))).display.toList)).result =
      .ok (.definition ⟨⟨"half", ["x", "y"]⟩,
        .binary '*' (.call "mean" [.var "x", .var "y"]) (.number ⟨0x3fe0000000000000⟩)⟩) := by
  obtain ⟨hexpr, hdefinition⟩ := parseExpr_display
  refine ⟨?_, ?_, (hdefinition true _ ⟨by decide, by decide, by decide⟩ ?_ ?_ ?_).1⟩
  · obtain ⟨e, hprint, hdepth⟩ := exists_printable 255
    exact ⟨e, hprint, hdepth, by rw [hexpr e hprint, hdepth, if_pos (by decide)]⟩
  · obtain ⟨e, hprint, hdepth⟩ := exists_printable 256
    exact ⟨e, hprint, hdepth, by rw [hexpr e hprint, hdepth, if_neg (by decide)]⟩
  · intro p hp
    simp only [List.mem_cons, List.not_mem_nil, or_false] at hp
    rcases hp with rfl | rfl <;> exact ⟨by decide, by decide, by decide⟩
  · refine .binary (by simp) (.call ⟨by decide, by decide, by decide⟩ ?_)
      (.number (by decide) (by decide))
    intro e he
    simp only [List.mem_cons, List.not_mem_nil, or_false] at he
    rcases he with rfl | rfl <;> exact .var ⟨by decide, by decide, by decide⟩
  · simp [Expr.depth, Expr.depthInCall]

end Formulary

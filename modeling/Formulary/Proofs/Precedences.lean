import Formulary.Proofs.Openings
import Formulary.Proofs.Sessions

/-!
# Only the order of precedences counts

Precedences are compared with each other and with bounds that are made of them, by adding one. Two
tables with the same operators in the same order decide every comparison alike, so the programs
they read are the same. One is added to a precedence only where the operator in front has a higher
one, so the sum is never out of range. To say this of all tokens, also of those that hold a fault,
reading and grouping are done in one walk, in which each sum has to be in range.

* `SameOrder`: tables with the same operators in the same order.
* `Grouped.map`: the tree of a chain depends on the order of its precedences.
* `expression_eq_of_sameOrder`: so do the expressions that are read.
* `Climbs`: reading and grouping in one walk; `Climbs.taken` tells what it takes.
* `climbs_iff`: the walk can always be made, and leads to what is read.
* `precedence_order_suffices`: the sessions with both tables are the same.
-/

namespace Formulary

/-! ## Tables of the same order -/

/-- Both tables have the same operators, and of two operators the same one binds less tightly. -/
structure SameOrder (table table' : PrecedenceTable) : Prop where
  operators : ∀ op, (table.get? op).isSome = (table'.get? op).isSome
  order : ∀ a b p q p' q', table.get? a = some p → table.get? b = some q →
    table'.get? a = some p' → table'.get? b = some q' → (p < q ↔ p' < q')

section Order

variable {table table' : PrecedenceTable}

theorem SameOrder.get?_eq_none (h : SameOrder table table') {op : Char}
    (hop : table.get? op = none) : table'.get? op = none := by
  have hsame := h.operators op
  rw [hop] at hsame
  exact Option.isSome_eq_false_iff.mp hsame.symm |> Option.isNone_iff_eq_none.mp

theorem SameOrder.get?_eq_some (h : SameOrder table table') {op : Char} {p : Int32}
    (hop : table.get? op = some p) : ∃ p', table'.get? op = some p' := by
  have hsame := h.operators op
  rw [hop] at hsame
  exact Option.isSome_iff_exists.mp hsame.symm

/-- The tree of a chain stays when its precedences are replaced by others in the same order. -/
theorem Grouped.map {first e : Expr} {links : List Link} (h : Grouped first links e)
    {f : Link → Link} (hop : ∀ l, (f l).op = l.op) (hoperand : ∀ l, (f l).operand = l.operand)
    (horder : ∀ l ∈ links, ∀ l' ∈ links,
      (l.precedence < l'.precedence ↔ (f l).precedence < (f l').precedence)) :
    Grouped first (links.map f) e := by
  induction h with
  | single first => exact .single first
  | @split first lhs rhs before after link hbefore hafter _ _ ihl ihr =>
    simp only [List.mem_append, List.mem_cons] at horder
    have hlhs := ihl fun l hl l' hl' => horder l (.inl hl) l' (.inl hl')
    have hrhs := ihr fun l hl l' hl' => horder l (.inr (.inr hl)) l' (.inr (.inr hl'))
    rw [← hoperand link] at hrhs
    rw [List.map_append, List.map_cons, ← hop link]
    refine .split ?_ ?_ hlhs hrhs
    · intro l' hl'
      obtain ⟨l, hl, rfl⟩ := List.mem_map.mp hl'
      rw [← Int32.not_lt, ← horder l (.inl hl) link (by simp), Int32.not_lt]
      exact hbefore l hl
    · intro l' hl'
      obtain ⟨l, hl, rfl⟩ := List.mem_map.mp hl'
      rw [← horder link (by simp) l (.inr (.inr hl))]
      exact hafter l hl

/-- The link with the precedence that its operator has in a table. -/
def Link.relabel (table : PrecedenceTable) (l : Link) : Link :=
  ⟨l.op, (table.get? l.op).getD 0, l.operand⟩

/-- The links that are read differ in their precedences only. -/
theorem readLinks_relabel (h : SameOrder table table') (operand : Reader Expr)
    (done : List Link) (tokens : List Token) :
    readLinks table' operand (done.map (·.relabel table')) tokens =
      (readLinks table operand done tokens).map (·.map (·.relabel table')) := by
  fun_induction readLinks table operand done tokens with
  | case1 done op rest hop =>
    rw [readLinks]
    simp [h.get?_eq_none hop, Parsed.map, Parsed.bind, Parsed.ok]
  | case2 done op rest precedence hop parsed e he =>
    obtain ⟨precedence', hop'⟩ := h.get?_eq_some hop
    have hread : operand.read rest = .fail e parsed.rest := congrArg₂ Parsed.mk he rfl
    rw [readLinks_eq_bind hop', hread]
    rfl
  | case3 done op rest precedence hop parsed rhs hrhs ih =>
    obtain ⟨precedence', hop'⟩ := h.get?_eq_some hop
    have hread : operand.read rest = .ok rhs parsed.rest := congrArg₂ Parsed.mk hrhs rfl
    rw [readLinks_of_operator _ hop' hread, ← ih, List.map_cons, Link.relabel, hop']
    rfl
  | case4 done tokens hsymbol =>
    rw [readLinks.eq_2 _ _ _ _ hsymbol]
    simp [Parsed.map, Parsed.bind, Parsed.ok]

theorem get?_of_readLinks {operand : Reader Expr} {done links : List Link}
    {tokens rest : List Token} (h : readLinks table operand done tokens = .ok links rest)
    (hdone : ∀ l ∈ done, table.get? l.op = some l.precedence) :
    ∀ l ∈ links, table.get? l.op = some l.precedence := by
  fun_induction readLinks table operand done tokens with
  | case1 done op tail hop =>
    obtain ⟨rfl, -⟩ := Parsed.ok_inj.mp h
    simpa using hdone
  | case2 done op tail precedence hop parsed e he => exact absurd h (Parsed.fail_ne_ok _ _ _ _)
  | case3 done op tail precedence hop parsed rhs hrhs ih =>
    exact ih h (List.forall_mem_cons.mpr ⟨hop, hdone⟩)
  | case4 done tokens hsymbol =>
    obtain ⟨rfl, -⟩ := Parsed.ok_inj.mp h
    simpa using hdone

/-- Chains of operators of both tables are grouped alike. -/
theorem SameOrder.groupChain_relabel (h : SameOrder table table') (first : Expr)
    {links : List Link} (hlinks : ∀ l ∈ links, table.get? l.op = some l.precedence) :
    groupChain first (links.map (·.relabel table')) = groupChain first links := by
  have hrelabel : ∀ l ∈ links, table'.get? l.op = some (l.relabel table').precedence := by
    intro l hl
    obtain ⟨p', hp'⟩ := h.get?_eq_some (hlinks l hl)
    rw [Link.relabel, hp']
    rfl
  have hpos : ∀ l ∈ links.map (·.relabel table'), 0 < l.precedence := by
    intro l' hl'
    obtain ⟨l, hl, rfl⟩ := List.mem_map.mp hl'
    exact PrecedenceTable.pos_of_get? (hrelabel l hl)
  have hgroup : Grouped first links (groupChain first links) :=
    groupChain_grouped fun l hl => PrecedenceTable.pos_of_get? (hlinks l hl)
  refine (groupChain_eq_iff hpos).mpr (hgroup.map (fun _ => rfl) (fun _ => rfl) ?_)
  intro l hl l' hl'
  exact h.order l.op l'.op _ _ _ _ (hlinks l hl) (hlinks l' hl') (hrelabel l hl) (hrelabel l' hl')

theorem chain_eq_of_sameOrder (h : SameOrder table table') (operand : Reader Expr) :
    chain table' operand = chain table operand := by
  have hread : readChain table' operand = readChain table operand := by
    funext tokens
    unfold readChain
    congr 1
    funext first rest
    have hlinks := readLinks_relabel h operand [] rest
    rw [List.map_nil] at hlinks
    rw [hlinks, Parsed.map_map]
    cases hread : readLinks table operand [] rest with
    | mk result left =>
      cases result with
      | error e => rfl
      | ok links =>
        exact congrArg (Parsed.ok · left)
          (h.groupChain_relabel first (get?_of_readLinks hread (by simp)))
  unfold chain
  congr 1

/-- With both tables the same expressions are read. -/
theorem expression_eq_of_sameOrder (h : SameOrder table table') (levels : Nat) :
    expression table' levels = expression table levels := by
  induction levels with
  | zero => rfl
  | succ levels ih => rw [expression, expression, ih, chain_eq_of_sameOrder h]

theorem readConstruct_eq_of_sameOrder (h : SameOrder table table') (tokens : List Token) :
    readConstruct table' tokens = readConstruct table tokens := by
  rw [readConstruct_eq_constructWith, readConstruct_eq_constructWith, expression_eq_of_sameOrder h]

theorem Session.step_eq_of_sameOrder (h : SameOrder table table') (s : Session) :
    s.step table' = s.step table := by
  rw [step, step, readConstruct_eq_of_sameOrder h]

/-- With both tables a session takes the same steps. -/
theorem Session.observe_eq_of_sameOrder {α : Type} (h : SameOrder table table')
    (report : Event → Session → α) (s : Session) :
    s.observe table' report = s.observe table report := by
  induction s using Session.runInduction table with
  | done s hnone =>
    have hnone' := (step_eq_of_sameOrder h s).trans hnone
    rw [observe_of_none report hnone, observe_of_none report hnone']
  | step s event after hsome ih =>
    have hsome' := (step_eq_of_sameOrder h s).trans hsome
    rw [observe_of_some report hsome, observe_of_some report hsome', ih]

end Order

/-! ## Reading and grouping in one walk -/

/-- The token in front is an operator, and its precedence binds. -/
def FrontBinds (table : PrecedenceTable) (tokens : List Token) (binds : Int32 → Prop) : Prop :=
  ∃ op precedence rest, tokens = .symbol op :: rest ∧ table.get? op = some precedence ∧
    binds precedence

/-- `Climbs table operand least lhs tokens p`: reading links from the front of the tokens onto
    `lhs`, for as long as they bind at least as tightly as `least`, comes to the outcome `p`. An
    operator in front that binds tighter than the one before takes the operand between them, and all
    that binds tighter, with one more than the precedence before as the new bound; that sum is in
    the range of 32 bits. -/
inductive Climbs (table : PrecedenceTable) (operand : Reader Expr) :
    Int32 → Expr → List Token → Parsed Expr → Prop
  | stop {least : Int32} {lhs : Expr} {tokens : List Token}
      (hfront : ¬ FrontBinds table tokens (least ≤ ·)) :
      Climbs table operand least lhs tokens ⟨.ok lhs, tokens⟩
  | fault {least precedence : Int32} {lhs : Expr} {op : Char} {rest left : List Token}
      {e : ParseError} (hop : table.get? op = some precedence) (hleast : least ≤ precedence)
      (hread : operand.read rest = ⟨.error e, left⟩) :
      Climbs table operand least lhs (.symbol op :: rest) ⟨.error e, left⟩
  | loose {least precedence : Int32} {lhs rhs : Expr} {op : Char} {rest left : List Token}
      {p : Parsed Expr} (hop : table.get? op = some precedence) (hleast : least ≤ precedence)
      (hread : operand.read rest = ⟨.ok rhs, left⟩)
      (hfront : ¬ FrontBinds table left (precedence < ·))
      (hrest : Climbs table operand least (.binary op lhs rhs) left p) :
      Climbs table operand least lhs (.symbol op :: rest) p
  | tight {least precedence : Int32} {lhs rhs rhs' : Expr} {op : Char}
      {rest left left' : List Token} {p : Parsed Expr} (hop : table.get? op = some precedence)
      (hleast : least ≤ precedence) (hread : operand.read rest = ⟨.ok rhs, left⟩)
      (hfront : FrontBinds table left (precedence < ·))
      (hrange : precedence.toInt + 1 ≤ Int32.maxValue.toInt)
      (hright : Climbs table operand (precedence + 1) rhs left ⟨.ok rhs', left'⟩)
      (hrest : Climbs table operand least (.binary op lhs rhs') left' p) :
      Climbs table operand least lhs (.symbol op :: rest) p
  | tightFault {least precedence : Int32} {lhs rhs : Expr} {op : Char}
      {rest left left' : List Token} {e : ParseError} (hop : table.get? op = some precedence)
      (hleast : least ≤ precedence) (hread : operand.read rest = ⟨.ok rhs, left⟩)
      (hfront : FrontBinds table left (precedence < ·))
      (hrange : precedence.toInt + 1 ≤ Int32.maxValue.toInt)
      (hright : Climbs table operand (precedence + 1) rhs left ⟨.error e, left'⟩) :
      Climbs table operand least lhs (.symbol op :: rest) ⟨.error e, left'⟩

/-- `ReadsByClimbing table operand tokens p`: reading an operand and then links onto it, with no
    bound on their precedences, comes to the outcome `p`. -/
inductive ReadsByClimbing (table : PrecedenceTable) (operand : Reader Expr) (tokens : List Token) :
    Parsed Expr → Prop
  | fault {e : ParseError} {rest : List Token} (hread : operand.read tokens = ⟨.error e, rest⟩) :
      ReadsByClimbing table operand tokens ⟨.error e, rest⟩
  | climb {first : Expr} {rest : List Token} {p : Parsed Expr}
      (hread : operand.read tokens = ⟨.ok first, rest⟩)
      (hclimb : Climbs table operand 0 first rest p) : ReadsByClimbing table operand tokens p

section Climbing

variable {table : PrecedenceTable} {operand : Reader Expr} {least precedence : Int32}
  {lhs rhs rhs' : Expr} {op : Char} {tokens rest left left' : List Token} {p : Parsed Expr}

theorem Climbs.suffix (h : Climbs table operand least lhs tokens p) : p.rest <:+ tokens := by
  have hbehind : ∀ {op : Char} {rest left : List Token} {result : Except ParseError Expr},
      operand.read rest = ⟨result, left⟩ → left <:+ .symbol op :: rest := by
    intro op rest left result hread
    have hsuffix := operand.suffix rest
    rw [hread] at hsuffix
    exact hsuffix.trans (List.suffix_cons _ _)
  induction h with
  | stop hfront => exact List.suffix_rfl
  | fault hop hleast hread => exact hbehind hread
  | loose hop hleast hread hfront hrest ih => exact ih.trans (hbehind hread)
  | tight hop hleast hread hfront hrange hright hrest ihright ih =>
    exact (ih.trans ihright).trans (hbehind hread)
  | tightFault hop hleast hread hfront hrange hright ih => exact ih.trans (hbehind hread)

/-- `Taken table operand least lhs tokens p`: the outcome `p` holds the tree of the links at the
    front that bind, and what is left does not begin with such a link; or `p` is the fault of the
    links at the front. -/
inductive Taken (table : PrecedenceTable) (operand : Reader Expr) (least : Int32) (lhs : Expr)
    (tokens : List Token) : Parsed Expr → Prop
  | ok {e : Expr} {rest : List Token} {used : List Link}
      (hread : readLinks table operand [] tokens =
        (readLinks table operand [] rest).map (used ++ ·))
      (hhead : ∀ l tail, used = l :: tail → FrontBinds table tokens (l.precedence = ·))
      (hused : ∀ l ∈ used, table.get? l.op = some l.precedence ∧ least ≤ l.precedence)
      (hfront : ¬ FrontBinds table rest (least ≤ ·)) (hgroup : Grouped lhs used e) :
      Taken table operand least lhs tokens ⟨.ok e, rest⟩
  | fail {e : ParseError} {rest : List Token}
      (hread : readLinks table operand [] tokens = ⟨.error e, rest⟩) :
      Taken table operand least lhs tokens ⟨.error e, rest⟩

/-- A link whose operand was read stands before those that are read behind it. -/
theorem readLinks_cons (hop : table.get? op = some precedence)
    (hread : operand.read rest = ⟨.ok rhs, left⟩) :
    readLinks table operand [] (.symbol op :: rest) =
      (readLinks table operand [] left).map (⟨op, precedence, rhs⟩ :: ·) := by
  rw [readLinks_of_operator [] hop hread, readLinks_eq]
  rfl

/-- An operator that binds, with the links that bind tighter behind it, is taken before what is
    taken then. -/
theorem Taken.cons (hop : table.get? op = some precedence) (hleast : least ≤ precedence)
    (hread : operand.read rest = ⟨.ok rhs, left⟩) {tighter : List Link}
    (hlinks : readLinks table operand [] left =
      (readLinks table operand [] left').map (tighter ++ ·))
    (htighter : ∀ l ∈ tighter, table.get? l.op = some l.precedence ∧ precedence < l.precedence)
    (hfront : ¬ FrontBinds table left' (precedence < ·)) (hgroup : Grouped rhs tighter rhs')
    (h : Taken table operand least (.binary op lhs rhs') left' p) :
    Taken table operand least lhs (.symbol op :: rest) p := by
  have hcons := readLinks_cons hop hread
  rw [hlinks, Parsed.map_map] at hcons
  cases h with
  | fail hfault =>
    rw [hfault] at hcons
    exact .fail hcons
  | @ok e behind used hrest hhead hused hstop htree =>
    rw [hrest, Parsed.map_map] at hcons
    have hnext : ∀ l tail, used = l :: tail → l.precedence ≤ precedence := by
      intro l tail hl
      obtain ⟨op', p', rest', rfl, hop', rfl⟩ := hhead l tail hl
      exact Int32.not_lt.mp fun hlt => hfront ⟨op', _, rest', rfl, hop', hlt⟩
    refine @Taken.ok _ _ _ _ _ e behind (⟨op, precedence, rhs⟩ :: (tighter ++ used)) ?_ ?_ ?_
      hstop ?_
    · rw [hcons]
      congr 1
      funext links
      simp
    · rintro l tail hl
      obtain ⟨rfl, -⟩ := List.cons.inj hl
      exact ⟨op, precedence, rest, rfl, hop, rfl⟩
    · rw [List.forall_mem_cons]
      refine ⟨⟨hop, hleast⟩, ?_⟩
      intro l hl
      rcases List.mem_append.mp hl with hl | hl
      · exact ⟨(htighter l hl).1, Int32.le_trans hleast (Int32.le_of_lt (htighter l hl).2)⟩
      · exact hused l hl
    · exact @Grouped.cons_of_binary ⟨op, precedence, rhs⟩ _ _ _ _ _ hgroup
        (fun l hl => (htighter l hl).2) hnext htree

/-- The walk takes the links at the front that bind, or comes to their fault. -/
theorem Climbs.taken (h : Climbs table operand least lhs tokens p) :
    Taken table operand least lhs tokens p := by
  have hnone : ∀ tokens, readLinks table operand [] tokens =
      (readLinks table operand [] tokens).map ([] ++ ·) := by
    intro tokens
    obtain ⟨result, rest⟩ := readLinks table operand [] tokens
    cases result <;> rfl
  induction h with
  | @stop least lhs tokens hfront =>
    exact .ok (hnone tokens) (by simp) (by simp) hfront (.single lhs)
  | fault hop hleast hread =>
    refine .fail ?_
    rw [readLinks_eq_bind hop, hread]
    rfl
  | @loose least precedence lhs rhs op rest left p hop hleast hread hfront hrest ih =>
    exact .cons hop hleast hread (hnone left) (by simp) hfront (.single rhs) ih
  | @tight least precedence lhs rhs rhs' op rest left left' p hop hleast hread hfront hrange hright
      hrest ihright ih =>
    obtain ⟨op', next, -, -, -, hnext⟩ := hfront
    -- binding at least as tightly as the sum is binding tighter than the precedence
    have hbinds := add_one_le_iff_of_lt hnext
    cases ihright with
    | ok hlinks hhead hused hstop hgroup =>
      refine .cons hop hleast hread hlinks ?_ ?_ hgroup ih
      · intro l hl
        exact ⟨(hused l hl).1, (hbinds _).mp (hused l hl).2⟩
      · simpa only [hbinds] using hstop
  | tightFault hop hleast hread hfront hrange hright ih =>
    cases ih with
    | fail hfault =>
      refine .fail ?_
      rw [readLinks_cons hop hread, hfault]
      rfl

theorem FrontBinds.inRange (h : FrontBinds table tokens (precedence < ·)) :
    precedence.toInt + 1 ≤ Int32.maxValue.toInt := by
  obtain ⟨op, next, rest, -, -, hlt⟩ := h
  have hnext := Int32.toInt_le next
  have hlt := Int32.lt_iff_toInt_lt.mp hlt
  omega

theorem exists_climbs (table : PrecedenceTable) (operand : Reader Expr) (least : Int32)
    (lhs : Expr) (tokens : List Token) : ∃ p, Climbs table operand least lhs tokens p := by
  induction hn : tokens.length using Nat.strongRecOn generalizing least lhs tokens with
  | ind n ih =>
    by_cases hbinds : FrontBinds table tokens (least ≤ ·)
    · obtain ⟨op, precedence, rest, rfl, hop, hleast⟩ := hbinds
      rw [List.length_cons] at hn
      rcases hread : operand.read rest with ⟨result, left⟩
      have hle := operand.length_le_of_read hread
      cases result with
      | error e => exact ⟨_, .fault hop hleast hread⟩
      | ok rhs =>
        by_cases hfront : FrontBinds table left (precedence < ·)
        · obtain ⟨⟨result, left'⟩, hright⟩ :=
            ih left.length (by omega) (precedence + 1) rhs left rfl
          have hle' := hright.suffix.length_le
          cases result with
          | error e => exact ⟨_, .tightFault hop hleast hread hfront hfront.inRange hright⟩
          | ok rhs' =>
            obtain ⟨p, hrest⟩ :=
              ih left'.length (by simp only at hle'; omega) least (.binary op lhs rhs') left' rfl
            exact ⟨p, .tight hop hleast hread hfront hfront.inRange hright hrest⟩
        · obtain ⟨p, hrest⟩ := ih left.length (by omega) least (.binary op lhs rhs) left rfl
          exact ⟨p, .loose hop hleast hread hfront hrest⟩
    · exact ⟨_, .stop hbinds⟩

/-- Without a bound the walk comes to what reading all links and then grouping them comes to. -/
theorem climbs_iff {first : Expr} :
    Climbs table operand 0 first tokens p ↔
      p = (readLinks table operand [] tokens).map (groupChain first) := by
  have hsound : ∀ p, Climbs table operand 0 first tokens p →
      p = (readLinks table operand [] tokens).map (groupChain first) := by
    intro p h
    cases h.taken with
    | fail hfault =>
      rw [hfault]
      rfl
    | @ok e rest used hlinks hhead hused hfront hgroup =>
      have hend : NotOperator table rest := by
        rintro op tail rfl
        by_contra hop
        obtain ⟨precedence, hop⟩ := Option.ne_none_iff_exists'.mp hop
        exact hfront ⟨op, precedence, tail, rfl, hop,
          Int32.le_of_lt (PrecedenceTable.pos_of_get? hop)⟩
      rw [readLinks_of_notOperator operand [] hend] at hlinks
      rw [hlinks, ← (groupChain_eq_iff fun l hl =>
        PrecedenceTable.pos_of_get? (hused l hl).1).mpr hgroup]
      simp [Parsed.map, Parsed.bind, Parsed.ok]
  constructor
  · exact hsound p
  · rintro rfl
    obtain ⟨p, h⟩ := exists_climbs table operand 0 first tokens
    rwa [← hsound p h]

theorem readsByClimbing_iff :
    ReadsByClimbing table operand tokens p ↔ readChain table operand tokens = p := by
  unfold readChain
  rcases hread : operand.read tokens with ⟨result, rest⟩
  cases result with
  | error e =>
    constructor
    · rintro (hfault | ⟨hfirst, -⟩)
      · rw [hread] at hfault
        exact hfault
      · simp [hread] at hfirst
    · rintro rfl
      exact .fault hread
  | ok first =>
    constructor
    · rintro (hfault | ⟨hfirst, hclimb⟩)
      · simp [hread] at hfault
      · obtain ⟨rfl, rfl⟩ : first = _ ∧ rest = _ := by simpa [hread] using hfirst
        exact (climbs_iff.mp hclimb).symm
    · rintro rfl
      exact .climb hread (climbs_iff.mpr rfl)

end Climbing

/-! ## Sessions -/

/-- Two configurations that differ in their tables only, which have the same operators in the same
    order, lead from every text to the same events and the same module. With every table the
    expressions at every level are read by climbing, in which no sum of a precedence and one is
    out of range. -/
theorem precedence_order_suffices {config config' : Config}
    (horder : SameOrder config.precedence config'.precedence)
    (hstrict : config'.strictNumbers = config.strictNumbers)
    (hname : config'.moduleName = config.moduleName) :
    (∀ (text : List Char) (α : Type) (report : Event → Session → α),
        (Session.start config' text).observe config'.precedence report =
          (Session.start config text).observe config.precedence report) ∧
      ∀ table levels tokens p,
        ReadsByClimbing table (primary (expression table levels)) tokens p ↔
          (expression table (levels + 1)).read tokens = p := by
  refine ⟨?_, fun _ _ _ _ => readsByClimbing_iff⟩
  intro text α report
  have hstart : Session.start config' text = Session.start config text := by
    rw [Session.start, Session.start, hstrict, hname]
  rw [hstart, Session.observe_eq_of_sameOrder horder]

/-- The operators of the language with other precedences, the highest one included, and a semicolon
    that is no operator. -/
def stretched : PrecedenceTable :=
  ⟨[('*', 2147483647), ('<', 1), ('+', 2), ('-', 2), (';', -7)]⟩

theorem get?_standard_stretched (op : Char) :
    (PrecedenceTable.standard.get? op, stretched.get? op) ∈
      [(none, none), (some 10, some 1), (some 20, some 2), (some 40, some 2147483647)] := by
  by_cases hop : op ∈ ['*', '<', '+', '-', ';']
  · simp only [List.mem_cons, List.not_mem_nil, or_false] at hop
    rcases hop with rfl | rfl | rfl | rfl | rfl <;> decide
  · simp only [List.mem_cons, List.not_mem_nil, or_false, not_or] at hop
    have hnone : PrecedenceTable.standard.get? op = none ∧ stretched.get? op = none := by
      constructor
      · rw [PrecedenceTable.get?, PrecedenceTable.stored?,
          List.lookup_eq_none_iff.mpr (by simp [PrecedenceTable.standard, hop])]
        rfl
      · rw [PrecedenceTable.get?, PrecedenceTable.stored?,
          List.lookup_eq_none_iff.mpr (by simp [stretched, hop])]
        rfl
    rw [hnone.1, hnone.2]
    decide

theorem sameOrder_stretched : SameOrder .standard stretched := by
  refine ⟨?_, ?_⟩
  · intro op
    have hop := get?_standard_stretched op
    simp only [List.mem_cons, Prod.mk.injEq, List.not_mem_nil, or_false] at hop
    rcases hop with ⟨hp, hp'⟩ | ⟨hp, hp'⟩ | ⟨hp, hp'⟩ | ⟨hp, hp'⟩ <;> rw [hp, hp'] <;> rfl
  · intro a b p q p' q' hp hq hp' hq'
    have ha := get?_standard_stretched a
    have hb := get?_standard_stretched b
    rw [hp, hp'] at ha
    rw [hq, hq'] at hb
    simp only [List.mem_cons, Prod.mk.injEq, reduceCtorEq, and_self, Option.some.injEq, false_or,
      List.not_mem_nil, or_false] at ha hb
    rcases ha with ⟨rfl, rfl⟩ | ⟨rfl, rfl⟩ | ⟨rfl, rfl⟩ <;>
      rcases hb with ⟨rfl, rfl⟩ | ⟨rfl, rfl⟩ | ⟨rfl, rfl⟩ <;> decide

/-- With the highest precedence for multiplication, a definition and a call behind it make the same
    events and the same module. -/
theorem precedence_order_suffices_stretched :
    SameOrder .standard stretched ∧
      (Session.start ⟨stretched, false, "kaleido"⟩ "def f(x) 1 < x - x * x; f(2".toList).observe
          stretched (fun event after => (event, after.code)) =
        (Session.start .standard "def f(x) 1 < x - x * x; f(2".toList).observe
          .standard (fun event after => (event, after.code)) :=
  ⟨sameOrder_stretched,
    (@precedence_order_suffices .standard ⟨stretched, false, "kaleido"⟩ sameOrder_stretched rfl
      rfl).1 _ _ _⟩

end Formulary

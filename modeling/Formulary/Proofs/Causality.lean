import Formulary.Proofs.Lexemes
import Formulary.Proofs.Lookahead
import Formulary.Proofs.Resynchronisation
import Formulary.Proofs.Sessions

/-!
# Events do not depend on text that has not been read

A session reads ahead: by one character to see the end of a token, and by one token to see the end
of a construct. What it tells after a step depends on the characters that it has read by then and on
nothing behind them. So two texts that begin alike have sessions that go alike, for as long as these
stay within the common beginning.

* `Cursor.Settles`: reading that stops within the beginning of a text; `Cursor.next_settles` and
  `Cursor.call_settles` for tokens.
* `Session.Alike.step`, `Session.Alike.history`: sessions whose tokens begin alike.
* `transcript`: what shows of a session before the first step and after each.
* `transcript_causal`: transcripts of texts that begin alike.
-/

namespace Formulary

/-! ## Reading within the beginning of a text -/

namespace Cursor

/-- Whatever text stands behind, the reading yields the same value and stops at the same place, with
    a character in the hand that lies within the first `total` ones. -/
def Settles {α : Type} (total : Nat) (read : List Char → α × Cursor) : Prop :=
  ∃ value ahead asked, ahead ≠ [] ∧ asked + ahead.length = total ∧
    ∀ y, read y = (value, ⟨ahead ++ y, asked⟩)

theorem Settles.map {α β : Type} {total : Nat} {read : List Char → α × Cursor}
    (h : Settles total read) (f : α → β) : Settles total fun y => (f (read y).1, (read y).2) := by
  obtain ⟨value, ahead, asked, hne, htotal, hread⟩ := h
  exact ⟨f value, ahead, asked, hne, htotal, fun y => by simp only [hread]⟩

/-- The first character of a gap is used up; any other one is left in the hand. -/
theorem skipGapFrom_cons (inComment : Bool) (asked : Nat) (x : Char) :
    (∃ inComment', ∀ rest, skipGapFrom inComment asked (x :: rest) =
      skipGapFrom inComment' (asked + 1) rest) ∨
    ∀ rest, skipGapFrom inComment asked (x :: rest) = ⟨x :: rest, asked⟩ := by
  simp only [skipGapFrom]
  split_ifs
  · exact .inl ⟨_, fun _ => rfl⟩
  · exact .inl ⟨_, fun _ => rfl⟩
  · exact .inl ⟨_, fun _ => rfl⟩
  · exact .inr fun _ => rfl

theorem le_asked_skipGapFrom (inComment : Bool) (asked : Nat) (text : List Char) :
    asked ≤ (skipGapFrom inComment asked text).asked := by
  induction text generalizing inComment asked with
  | nil => exact le_rfl
  | cons x text ih =>
    rcases skipGapFrom_cons inComment asked x with ⟨inComment', hused⟩ | hleft
    · rw [hused]
      exact (Nat.le_succ asked).trans (ih inComment' (asked + 1))
    · rw [hleft]

/-- A gap that ends within the beginning of a text ends there in front of any other text. -/
theorem skipGapFrom_settles {inComment : Bool} {asked : Nat} {q x : List Char}
    (h : (skipGapFrom inComment asked (q ++ x)).asked < asked + q.length) :
    ∃ c ahead asked', asked' + (c :: ahead).length = asked + q.length ∧
      ∀ y, skipGapFrom inComment asked (q ++ y) = ⟨c :: (ahead ++ y), asked'⟩ := by
  induction q generalizing inComment asked with
  | nil => exact absurd (le_asked_skipGapFrom inComment asked x) (Nat.not_le.mpr h)
  | cons c q ih =>
    rcases skipGapFrom_cons inComment asked c with ⟨inComment', hused⟩ | hleft
    · rw [List.cons_append, hused] at h
      obtain ⟨c', ahead, asked', htotal, hsettles⟩ :=
        ih (h.trans_eq (by rw [List.length_cons]; omega))
      refine ⟨c', ahead, asked', by rw [htotal, List.length_cons]; omega, fun y => ?_⟩
      rw [List.cons_append, hused, hsettles]
    · exact ⟨c, q, asked, rfl, fun y => hleft (q ++ y)⟩

theorem span_settles {p : Char → Bool} {asked : Nat} {q x : List Char}
    (h : (span p ⟨q ++ x, asked⟩).2.asked < asked + q.length) :
    Settles (asked + q.length) fun y => span p ⟨q ++ y, asked⟩ := by
  simp only [span_eq, List.takeWhile_append] at h
  have hsplit := congrArg List.length (List.takeWhile_append_dropWhile (p := p) (l := q))
  rw [List.length_append] at hsplit
  split_ifs at h with hall
  · rw [List.length_append] at h
    omega
  · have hne : q.dropWhile p ≠ [] := by
      intro hnil
      rw [hnil] at hsplit
      exact hall (by simpa using hsplit)
    refine ⟨q.takeWhile p, q.dropWhile p, asked + (q.takeWhile p).length, hne, by omega, ?_⟩
    intro y
    have hempty : (q.dropWhile p).isEmpty = false := by simpa using hne
    simp only [span_eq, List.takeWhile_append, if_neg hall, List.dropWhile_append, hempty,
      Bool.false_eq_true, ↓reduceIte]

theorem le_asked_next (strict : Bool) (c : Cursor) : c.skipGap.asked ≤ (c.next strict).2.asked := by
  unfold next
  simp only [span_eq]
  split
  · exact le_rfl
  · split_ifs
    · exact Nat.le_add_right _ _
    · exact Nat.le_add_right _ _
    · exact Nat.le_succ _

/-- A token that is read within the beginning of a text is read there in front of any other text. -/
theorem next_settles {strict : Bool} {asked : Nat} {q x : List Char}
    (h : (next strict ⟨q ++ x, asked⟩).2.asked < asked + q.length) :
    Settles (asked + q.length) fun y => next strict ⟨q ++ y, asked⟩ := by
  obtain ⟨c, ahead, asked', htotal, hskip⟩ :=
    skipGapFrom_settles ((le_asked_next strict ⟨q ++ x, asked⟩).trans_lt h)
  rw [← htotal] at h ⊢
  simp only [next, skipGap, hskip] at h ⊢
  by_cases halpha : c.isAlpha = true
  · simp only [halpha, ↓reduceIte] at h ⊢
    exact (span_settles (q := c :: ahead) h).map fun word => some (Token.ofWord word)
  by_cases hnumeric : isNumeric c = true
  · simp only [halpha, hnumeric, Bool.false_eq_true, ↓reduceIte] at h ⊢
    exact (span_settles (q := c :: ahead) h).map fun run => some (Token.ofLiteral strict run)
  · simp only [halpha, hnumeric, Bool.false_eq_true, ↓reduceIte] at h ⊢
    rw [List.length_cons] at h ⊢
    refine ⟨some (.symbol c), ahead, asked' + 1, ?_, by omega, fun y => rfl⟩
    rintro rfl
    simp at h

theorem le_asked_call (strict : Bool) (c : Cursor) (i : Nat) :
    c.asked ≤ (c.call strict i).2.asked := by
  have hnext : ∀ c : Cursor, c.asked ≤ (c.next strict).2.asked := fun c =>
    (le_asked_skipGapFrom false c.asked c.pending).trans (le_asked_next strict c)
  induction i generalizing c with
  | zero => exact hnext c
  | succ i ih => exact (hnext c).trans (ih _)

theorem asked_call_mono (strict : Bool) (c : Cursor) {i j : Nat} (h : j ≤ i) :
    (c.call strict j).2.asked ≤ (c.call strict i).2.asked := by
  induction j generalizing c i with
  | zero =>
    cases i with
    | zero => exact le_rfl
    | succ i => exact le_asked_call strict _ i
  | succ j ih =>
    obtain ⟨i, rfl⟩ : ∃ i', i = i' + 1 := ⟨i - 1, by omega⟩
    exact ih _ (Nat.le_of_succ_le_succ h)

/-- The same for the tokens that are called for one after the other. -/
theorem call_settles {strict : Bool} {asked i : Nat} {q x : List Char}
    (h : (call strict ⟨q ++ x, asked⟩ i).2.asked < asked + q.length) :
    Settles (asked + q.length) fun y => call strict ⟨q ++ y, asked⟩ i := by
  induction i generalizing asked q with
  | zero => exact next_settles h
  | succ i ih =>
    obtain ⟨t?, ahead, asked', hne, htotal, hnext⟩ :=
      next_settles ((le_asked_call strict _ i).trans_lt h)
    simp only [call, hnext] at h ⊢
    rw [← htotal] at h ⊢
    exact ih h

end Cursor

/-- The tokens that are read within the beginning of a text are the same in front of any other
    text, and so is how much has been asked for. -/
theorem call_start_settles {strict : Bool} {p x : List Char} {i j : Nat}
    (h : ((Cursor.start (p ++ x)).call strict i).2.asked ≤ p.length) (hji : j ≤ i) :
    ∃ t asked, asked ≤ p.length ∧ ∀ y, ∃ pending,
      (Cursor.start (p ++ y)).call strict j = (some t, ⟨pending, asked⟩) := by
  have hj := (Cursor.asked_call_mono strict _ hji).trans h
  -- the blank in the hand at the start counts as one more character of the beginning
  have hwithin : (Cursor.call strict ⟨(' ' :: p) ++ x, 0⟩ j).2.asked < 0 + (' ' :: p).length := by
    rw [List.length_cons, Nat.zero_add]
    exact Nat.lt_succ_of_le hj
  obtain ⟨t?, ahead, asked, hne, htotal, hcall⟩ := Cursor.call_settles hwithin
  have hpos := List.length_pos_of_ne_nil hne
  rw [List.length_cons, Nat.zero_add] at htotal
  cases t? with
  | some t => exact ⟨t, asked, by omega, fun y => ⟨ahead ++ y, hcall y⟩⟩
  | none =>
    have hend := (hcall x).symm.trans (Cursor.call_of_none (congrArg Prod.fst (hcall x)))
    simp [hne] at hend

theorem take_tokens_eq {strict : Bool} {p x : List Char} {i : Nat}
    (h : ((Cursor.start (p ++ x)).call strict i).2.asked ≤ p.length) (y : List Char) :
    (tokens strict (p ++ y)).take (i + 1) = (tokens strict (p ++ x)).take (i + 1) ∧
      i < (tokens strict (p ++ y)).length := by
  have htoken : ∀ j ≤ i, ∃ t, ∀ z, (tokens strict (p ++ z))[j]? = some t := by
    intro j hj
    obtain ⟨t, asked, -, hcall⟩ := call_start_settles h hj
    refine ⟨t, fun z => ?_⟩
    obtain ⟨pending, hz⟩ := hcall z
    rw [tokens, List.getElem?_map, scan, Cursor.getElem?_readings, hz]
    rfl
  constructor
  · refine List.ext_getElem? fun j => ?_
    rw [List.getElem?_take, List.getElem?_take]
    split_ifs with hj
    · obtain ⟨t, ht⟩ := htoken j (Nat.le_of_lt_succ hj)
      rw [ht, ht]
    · rfl
  · obtain ⟨t, ht⟩ := htoken i le_rfl
    exact (List.getElem?_eq_some_iff.mp (ht y)).1

/-! ## Sessions whose tokens begin alike -/

namespace Session

/-- The sessions have made the same code and have the same tokens ahead, one at least, in front of
    `u` and of `u'`. -/
structure Alike (u u' : List Token) (s s' : Session) : Prop where
  code : s'.code = s.code
  tokens : ∃ d, d ≠ [] ∧ s.tokens = d ++ u ∧ s'.tokens = d ++ u'

section

variable {table : PrecedenceTable} {u u' : List Token} {s s' after : Session} {event : Event}

/-- A step that leaves a token in sight in front of `u` is the same step in front of `u'`. -/
theorem Alike.step (h : Alike u u' s s') (hstep : s.step table = some (event, after))
    (hsight : u.length < after.tokens.length) :
    ∃ after', s'.step table = some (event, after') ∧ Alike u u' after after' := by
  obtain ⟨tokens, code⟩ := s
  obtain ⟨tokens', code'⟩ := s'
  obtain ⟨hcode, d, hd, htokens, htokens'⟩ := h
  obtain rfl : code' = code := hcode
  obtain rfl : tokens = d ++ u := htokens
  obtain rfl : tokens' = d ++ u' := htokens'
  have hsuffix := step_suffix hstep
  rw [step_eq_respond table code' (List.append_ne_nil_of_left_ne_nil hd u)] at hstep
  obtain ⟨rfl, rfl⟩ := Prod.mk.inj (Option.some.inj hstep)
  obtain ⟨d', hd'⟩ :=
    List.suffix_of_suffix_length_le (List.suffix_append d u) hsuffix hsight.le
  have hne : d' ≠ [] := by
    rintro rfl
    exact hsight.ne (congrArg List.length hd')
  obtain ⟨hresult, hresume⟩ := resume_oneAhead table hne hd'.symm u'
  have hstep' := step_eq_respond table code' (List.append_ne_nil_of_left_ne_nil hd u')
  rw [hresult, hresume] at hstep'
  exact ⟨_, hstep', rfl, d', hne, hd'.symm, rfl⟩

/-- The session after the given event and after each step from there on. -/
def history (table : PrecedenceTable) (event : Option Event) (s : Session) :
    List (Option Event × Session) :=
  (event, s) :: (s.observe table fun event s => (some event, s)).1

theorem history_of_step (hstep : s.step table = some (event, after)) (event₀ : Option Event) :
    s.history table event₀ = (event₀, s) :: after.history table (some event) := by
  rw [history, observe_of_some _ hstep]
  rfl

/-- Behind the first entry of a history stands that of the session after a step. -/
theorem step_of_getElem?_history {k : Nat} {event₀ : Option Event}
    {entry : Option Event × Session} (h : (s.history table event₀)[k + 1]? = some entry) :
    ∃ event after, s.step table = some (event, after) ∧
      (after.history table (some event))[k]? = some entry := by
  cases hstep : s.step table with
  | none =>
    rw [history, observe_of_none _ hstep] at h
    simp at h
  | some result =>
    obtain ⟨event, after⟩ := result
    rw [history_of_step hstep, List.getElem?_cons_succ] at h
    exact ⟨event, after, rfl, h⟩

theorem suffix_of_getElem?_history {k : Nat} {event₀ event₁ : Option Event}
    (h : (s.history table event₀)[k]? = some (event₁, after)) : after.tokens <:+ s.tokens := by
  induction k generalizing s event₀ with
  | zero =>
    obtain ⟨-, rfl⟩ := Prod.mk.inj (Option.some.inj h)
    exact List.suffix_rfl
  | succ k ih =>
    obtain ⟨event, next, hstep, hnext⟩ := step_of_getElem?_history h
    exact (ih hnext).trans (step_suffix hstep)

/-- Sessions that are alike go alike, for as long as a token is in sight in front of `u`. -/
theorem Alike.history (h : Alike u u' s s') {k : Nat} {event₀ event₁ : Option Event}
    (hk : (s.history table event₀)[k]? = some (event₁, after))
    (hsight : u.length < after.tokens.length) {j : Nat} (hj : j ≤ k) :
    ∃ event₂ t t', (s.history table event₀)[j]? = some (event₂, t) ∧
      (s'.history table event₀)[j]? = some (event₂, t') ∧ Alike u u' t t' := by
  induction k generalizing s s' event₀ j with
  | zero =>
    obtain rfl := Nat.le_zero.mp hj
    exact ⟨event₀, s, s', rfl, rfl, h⟩
  | succ k ih =>
    cases j with
    | zero => exact ⟨event₀, s, s', rfl, rfl, h⟩
    | succ j =>
      obtain ⟨event, next, hstep, hnext⟩ := step_of_getElem?_history hk
      have hnextSight := hsight.trans_le (suffix_of_getElem?_history hnext).length_le
      obtain ⟨next', hstep', halike⟩ := h.step hstep hnextSight
      rw [history_of_step hstep, history_of_step hstep', List.getElem?_cons_succ,
        List.getElem?_cons_succ]
      exact ih halike hnext (Nat.le_of_succ_le_succ hj)

end

end Session

/-! ## Transcripts -/

/-- What shows of a session when it has started or taken a step. -/
structure Moment where
  /-- The event of the last step; none before the first one. -/
  event : Option Event
  code : CodeModule
  /-- How many characters of the text have been read. -/
  pulled : Nat
  /-- Whether the text has been asked for a character behind its last one. -/
  endMet : Bool

/-- What shows of a session of the given text. The token in sight is the last one that the text was
    asked for. -/
def Session.moment (strict : Bool) (text : List Char) (event : Option Event) (s : Session) :
    Moment where
  event := event
  code := s.code
  pulled := s.pulled text.length (scan strict text)
  endMet :=
    let sight := (scan strict text).length - s.tokens.length
    text.length < ((Cursor.start text).call strict sight).2.asked

/-- What shows of the session of a text before the first step and after each. -/
def transcript (config : Config) (text : String) : List Moment :=
  ((Session.start config text.toList).history config.precedence none).map
    fun entry => entry.2.moment config.strictNumbers text.toList entry.1

/-- Before the end is met, the text has been asked for no more characters than have been read. -/
theorem asked_le_of_moment {strict : Bool} {text : List Char} {event : Option Event} {s : Session}
    {bound : Nat} (hpulled : (s.moment strict text event).pulled ≤ bound)
    (hend : (s.moment strict text event).endMet = false) :
    ((Cursor.start text).call strict ((tokens strict text).length - s.tokens.length)).2.asked ≤
      bound := by
  rw [tokens, List.length_map]
  simp only [Session.moment, Session.pulled, pulledAfter_eq] at hpulled
  simp only [Session.moment, decide_eq_false_iff_not, Nat.not_lt] at hend
  rwa [Nat.min_eq_left hend] at hpulled

/-- Sessions that are alike show the same, if the texts have been read within their common
    beginning. -/
theorem Session.Alike.moment {strict : Bool} {p x y : List Char} {i : Nat} {s s' : Session}
    (h : ((Cursor.start (p ++ x)).call strict i).2.asked ≤ p.length)
    (halike : Alike ((Formulary.tokens strict (p ++ x)).drop (i + 1))
      ((Formulary.tokens strict (p ++ y)).drop (i + 1)) s s')
    (hsuffix : s.tokens <:+ Formulary.tokens strict (p ++ x)) (event : Option Event) :
    s'.moment strict (p ++ y) event = s.moment strict (p ++ x) event := by
  obtain ⟨hcode, d, hd, hs, hs'⟩ := halike
  have hpos := List.length_pos_of_ne_nil hd
  have hle := hsuffix.length_le
  have hlength := (take_tokens_eq h x).2
  have hlength' := (take_tokens_eq h y).2
  rw [hs, List.length_append, List.length_drop] at hle
  -- the token in sight has the same number in both texts
  have hnumber : (scan strict (p ++ x)).length - s.tokens.length = i + 1 - d.length := by
    rw [hs, List.length_append, List.length_drop]
    rw [Formulary.tokens, List.length_map] at hlength hle ⊢
    omega
  have hnumber' : (scan strict (p ++ y)).length - s'.tokens.length = i + 1 - d.length := by
    rw [hs', List.length_append, List.length_drop]
    rw [Formulary.tokens, List.length_map] at hlength' ⊢
    omega
  obtain ⟨t, asked, hasked, hcall⟩ := call_start_settles h (j := i + 1 - d.length) (by omega)
  obtain ⟨pending, hx⟩ := hcall x
  obtain ⟨pending', hy⟩ := hcall y
  have hwithin : ∀ z : List Char, asked ≤ (p ++ z).length := fun z => by
    rw [List.length_append]
    omega
  simp only [Session.moment, Session.pulled, pulledAfter_eq, hnumber, hnumber', hx, hy, hcode,
    Nat.min_eq_left (hwithin _), Nat.not_lt.mpr (hwithin _)]

/-- If on some text nothing behind the beginning `p` has been read, and the end has not been met,
    when a session has started or taken its `k`-th step, then on every text with that beginning the
    session shows the same at its start and after each of these steps: the events, the code, and how
    many characters have been read. -/
theorem transcript_causal (config : Config) (p x y : String) {k : Nat} {moment : Moment}
    (hk : (transcript config (p ++ x))[k]? = some moment) (hpulled : moment.pulled ≤ p.length)
    (hend : moment.endMet = false) :
    (transcript config (p ++ y)).take (k + 1) = (transcript config (p ++ x)).take (k + 1) := by
  simp only [transcript, List.getElem?_map, String.toList_append] at hk ⊢
  obtain ⟨⟨event, s⟩, hs, rfl⟩ := Option.map_eq_some_iff.mp hk
  have hsuffix := Session.suffix_of_getElem?_history hs
  have hread := asked_le_of_moment (hpulled.trans_eq String.length_toList.symm) hend
  set strict := config.strictNumbers
  set tokensX := tokens strict (p.toList ++ x.toList)
  set tokensY := tokens strict (p.toList ++ y.toList)
  set i := tokensX.length - s.tokens.length
  have hlength : i < tokensX.length := (take_tokens_eq hread x.toList).2
  have hstart : Session.Alike (tokensX.drop (i + 1)) (tokensY.drop (i + 1))
      (.start config (p.toList ++ x.toList)) (.start config (p.toList ++ y.toList)) := by
    refine ⟨rfl, tokensX.take (i + 1), ?_, (List.take_append_drop _ _).symm, ?_⟩
    · exact List.ne_nil_of_length_pos (by rw [List.length_take]; omega)
    · rw [← (take_tokens_eq hread y.toList).1]
      exact (List.take_append_drop _ _).symm
  have hsight : (tokensX.drop (i + 1)).length < s.tokens.length := by
    have hle : s.tokens.length ≤ tokensX.length := hsuffix.length_le
    rw [List.length_drop]
    omega
  refine List.ext_getElem? fun j => ?_
  rw [List.getElem?_take, List.getElem?_take]
  split_ifs with hj
  · obtain ⟨event', t, t', ht, ht', halike⟩ := hstart.history hs hsight (Nat.le_of_lt_succ hj)
    rw [List.getElem?_map, List.getElem?_map, ht, ht', Option.map_some, Option.map_some,
      halike.moment hread (Session.suffix_of_getElem?_history ht)]
  · rfl

/-- The definition is told of when its semicolon is in sight, whatever the next line says. -/
theorem transcript_causal_definition :
    (∃ moment, (transcript .standard ("def f(x) x * x;\n" ++ "f(2) ; 1"))[1]? = some moment ∧
      moment.pulled ≤ "def f(x) x * x;\n".length ∧ moment.endMet = false) ∧
    (transcript .standard ("def f(x) x * x;\n" ++ "extern f(")).take 2 =
      (transcript .standard ("def f(x) x * x;\n" ++ "f(2) ; 1")).take 2 := by
  have hmoment : ∃ moment,
      (transcript .standard ("def f(x) x * x;\n" ++ "f(2) ; 1"))[1]? = some moment ∧
        moment.pulled ≤ "def f(x) x * x;\n".length ∧ moment.endMet = false :=
    ⟨_, List.getElem?_eq_getElem (by decide +kernel), by decide +kernel, by decide +kernel⟩
  refine ⟨hmoment, ?_⟩
  obtain ⟨moment, hk, hpulled, hend⟩ := hmoment
  exact transcript_causal .standard _ _ _ hk hpulled hend

end Formulary

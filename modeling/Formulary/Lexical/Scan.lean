import Formulary.Lexical.Token
import Formulary.Lexical.Cursor

/-!
# From characters to tokens

A token starts at the first character behind a gap of blanks and comments and is as long as it
can be. To see its end the reader has to read one character more, and never reads further.

* `Cursor.next`: the next token, if there is one, and the place behind it.
* `scan`: all tokens of a text, each with the place behind it.
* `tokens`: the tokens alone.
* `pulledAfter`: how many characters have been read when a token is in sight.
-/

namespace Formulary

/-- Reads the next token (`next_token`). Without one the text has ended. -/
def Cursor.next (strict : Bool) (c : Cursor) : Option Token × Cursor :=
  let c := c.skipGap
  match c.pending with
  | [] => (none, c)
  | x :: rest =>
    if x.isAlpha then
      let (word, after) := c.span Char.isAlphanum
      (some (Token.ofWord word), after)
    else if isNumeric x then
      let (text, after) := c.span isNumeric
      (some (Token.ofLiteral strict text), after)
    else (some (.symbol x), ⟨rest, c.asked + 1⟩)

/-- A run whose first character is accepted is not empty. -/
theorem Cursor.length_span_lt {p : Char → Bool} {c : Cursor} {x : Char} {rest : List Char}
    (h : c.pending = x :: rest) (hp : p x = true) :
    (c.span p).2.pending.length < c.pending.length := by
  rw [span_eq, h]
  simp only [List.dropWhile_cons, hp, ↓reduceIte, List.length_cons]
  exact Nat.lt_succ_of_le (List.dropWhile_suffix p).length_le

/-- A token uses up at least one character. -/
theorem Cursor.length_lt_of_next {strict : Bool} {c after : Cursor} {t : Token}
    (h : c.next strict = (some t, after)) : after.pending.length < c.pending.length := by
  refine Nat.lt_of_lt_of_le ?_ c.skipGap_suffix.length_le
  unfold Cursor.next at h
  simp only at h
  split at h
  · simp at h
  · next x rest hx =>
    split at h
    · next ha =>
      obtain ⟨-, rfl⟩ := Prod.mk.inj h
      exact Cursor.length_span_lt hx (by simp [Char.isAlphanum, ha])
    · split at h
      · next hn =>
        obtain ⟨-, rfl⟩ := Prod.mk.inj h
        exact Cursor.length_span_lt hx hn
      · obtain ⟨-, rfl⟩ := Prod.mk.inj h
        rw [hx]
        exact Nat.lt_succ_self _

/-- A token with the place behind it. -/
structure Reading where
  token : Token
  after : Cursor
deriving DecidableEq

/-- Reads all tokens from a place on. They stand behind `done`, which is in reverse. -/
def scanOnto (strict : Bool) (done : List Reading) (c : Cursor) : List Reading :=
  match _h : c.next strict with
  | (some t, after) => scanOnto strict (⟨t, after⟩ :: done) after
  | (none, _) => done.reverse
termination_by c.pending.length
decreasing_by exact Cursor.length_lt_of_next _h

/-- All tokens from a place on, with the places behind them. -/
def Cursor.readings (strict : Bool) (c : Cursor) : List Reading := scanOnto strict [] c

/-- All tokens of a text with the places behind them. -/
def scan (strict : Bool) (text : List Char) : List Reading := (Cursor.start text).readings strict

/-- The tokens of a text. -/
def tokens (strict : Bool) (text : List Char) : List Token := (scan strict text).map (·.token)

theorem scanOnto_eq (strict : Bool) (done : List Reading) (c : Cursor) :
    scanOnto strict done c = done.reverse ++ c.readings strict := by
  induction hn : c.pending.length using Nat.strongRecOn generalizing done c with
  | ind n ih =>
    unfold Cursor.readings
    rw [scanOnto, scanOnto.eq_def strict []]
    split
    · next t after h =>
      have hlt := hn ▸ Cursor.length_lt_of_next h
      rw [ih _ hlt _ after rfl, ih _ hlt [_] after rfl]
      simp
    · simp

/-- Without a next token there are no readings. -/
theorem Cursor.readings_of_none {strict : Bool} {c after : Cursor}
    (h : c.next strict = (none, after)) : c.readings strict = [] := by
  unfold Cursor.readings
  rw [scanOnto]
  split
  · next h' =>
    rw [h] at h'
    simp at h'
  · rfl

/-- The readings are the next token and those behind it. -/
theorem Cursor.readings_of_some {strict : Bool} {c after : Cursor} {t : Token}
    (h : c.next strict = (some t, after)) :
    c.readings strict = ⟨t, after⟩ :: after.readings strict := by
  unfold Cursor.readings
  rw [scanOnto]
  split
  · next h' =>
    rw [h] at h'
    obtain ⟨ht, rfl⟩ := Prod.mk.inj h'
    obtain rfl := Option.some.inj ht
    rw [scanOnto_eq]
    rfl
  · next h' =>
    rw [h] at h'
    simp at h'

/-- How many characters of a text of the given length have been read once `seen` tokens have been
    asked for. Asking behind the last token reads the whole text, and asking for the end brings no
    character. -/
def pulledAfter (length : Nat) (readings : List Reading) (seen : Nat) : Nat :=
  match seen with
  | 0 => 0
  | before + 1 =>
    match readings[before]? with
    | some r => min r.after.asked length
    | none => length

end Formulary

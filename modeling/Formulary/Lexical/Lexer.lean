import Formulary.Lexical.Source
import Formulary.Lexical.Cursor
import Formulary.Lexical.Token

/-!
# Tokens on demand

A lexer asks a source for characters while it reads a token, and for none between two tokens. The
character that ended the last token is in its hand. Once the source has handed out an end, the hand
is empty and the source is not asked again.

* `Lexer.use`: uses the character in the hand.
* `Lexer.next`: the next token.
* `Lexer.size_next_le`: a token uses up a character.
-/

namespace Formulary

/-- A source of characters that is read as tokens (`Lexer`). -/
structure Lexer (σ : Type) where
  source : σ
  /-- The character that has been read but not used; none once the end has been met. -/
  hand : Option Char
  /-- Whether runs of digits and points that are not one number are refused. -/
  strict : Bool

namespace Lexer

variable {σ : Type} [CharSource σ]

/-- Before the first character (`new`): a blank in the hand makes the first use read real text. -/
def start (strict : Bool) (source : σ) : Lexer σ := ⟨source, some ' ', strict⟩

/-- Uses the character in the hand and asks for the next one (`advance`). -/
def use (l : Lexer σ) : Lexer σ :=
  let (hand, source) := CharSource.next l.source
  ⟨source, hand, l.strict⟩

/-- A bound on the characters that have not been used. -/
def size (l : Lexer σ) : Nat := CharSource.size l.source + l.hand.toList.length

theorem size_use_lt {l : Lexer σ} {x : Char} (h : l.hand = some x) : l.use.size < l.size := by
  have hle : l.use.size ≤ CharSource.size l.source := CharSource.size_next l.source
  have hsize : l.size = CharSource.size l.source + 1 := by rw [size, h, Option.toList_some]; rfl
  omega

/-- Uses up characters for as long as `p` accepts them. They stand behind `taken`, which is in
    reverse. -/
def spanOnto (p : Char → Bool) (taken : List Char) (l : Lexer σ) : List Char × Lexer σ :=
  match _h : l.hand with
  | none => (taken.reverse, l)
  | some x => if p x then spanOnto p (x :: taken) l.use else (taken.reverse, l)
termination_by l.size
decreasing_by exact size_use_lt _h

theorem spanOnto_of_none {l : Lexer σ} (h : l.hand = none) (p : Char → Bool)
    (taken : List Char) : spanOnto p taken l = (taken.reverse, l) := by
  rw [spanOnto]
  split
  · rfl
  · next hx =>
    rw [h] at hx
    simp at hx

theorem spanOnto_of_some {l : Lexer σ} {x : Char} (h : l.hand = some x) (p : Char → Bool)
    (taken : List Char) :
    spanOnto p taken l = if p x then spanOnto p (x :: taken) l.use else (taken.reverse, l) := by
  rw [spanOnto]
  split
  · next hnone =>
    rw [h] at hnone
    simp at hnone
  · next y hy => rw [Option.some.inj (h.symm.trans hy)]

/-- The longest run of characters that `p` accepts, and the lexer behind it. -/
def span (p : Char → Bool) (l : Lexer σ) : List Char × Lexer σ := spanOnto p [] l

/-- Uses up blanks and comments. The flag says whether the hand is inside a comment. -/
def skipGapFrom (inComment : Bool) (l : Lexer σ) : Lexer σ :=
  match _h : l.hand with
  | none => l
  | some x =>
    if inComment then skipGapFrom (!Cursor.endsLine x) l.use
    else if isBlank x then skipGapFrom false l.use
    else if x = '#' then skipGapFrom true l.use
    else l
termination_by l.size
decreasing_by all_goals exact size_use_lt _h

theorem skipGapFrom_of_none {l : Lexer σ} (h : l.hand = none) (inComment : Bool) :
    skipGapFrom inComment l = l := by
  rw [skipGapFrom]
  split
  · rfl
  · next hx =>
    rw [h] at hx
    simp at hx

theorem skipGapFrom_of_some {l : Lexer σ} {x : Char} (h : l.hand = some x) (inComment : Bool) :
    skipGapFrom inComment l =
      if inComment then skipGapFrom (!Cursor.endsLine x) l.use
      else if isBlank x then skipGapFrom false l.use
      else if x = '#' then skipGapFrom true l.use
      else l := by
  rw [skipGapFrom]
  split
  · next hnone =>
    rw [h] at hnone
    simp at hnone
  · next y hy => rw [Option.some.inj (h.symm.trans hy)]

/-- Goes on to the first character that is neither blank nor in a comment. -/
def skipGap (l : Lexer σ) : Lexer σ := skipGapFrom false l

/-- Reads the next token (`next_token`). Without one the source has come to an end. -/
def next (l : Lexer σ) : Option Token × Lexer σ :=
  let l := l.skipGap
  match l.hand with
  | none => (none, l)
  | some x =>
    if x.isAlpha then
      let (word, l) := l.span Char.isAlphanum
      (some (Token.ofWord word), l)
    else if isNumeric x then
      let (text, l) := l.span isNumeric
      (some (Token.ofLiteral l.strict text), l)
    else (some (.symbol x), l.use)

/-! ## Tokens use up characters -/

theorem size_spanOnto_le (p : Char → Bool) (taken : List Char) (l : Lexer σ) :
    (spanOnto p taken l).2.size ≤ l.size := by
  fun_induction spanOnto p taken l with
  | case1 => exact Nat.le_refl _
  | case2 taken l x hx hp ih => exact Nat.le_trans ih (Nat.le_of_lt (size_use_lt hx))
  | case3 => exact Nat.le_refl _

/-- A run whose first character is accepted is not empty. -/
theorem size_span_lt {p : Char → Bool} {l : Lexer σ} {x : Char} (h : l.hand = some x)
    (hp : p x = true) : (l.span p).2.size < l.size := by
  rw [span, spanOnto_of_some h, if_pos hp]
  exact Nat.lt_of_le_of_lt (size_spanOnto_le _ _ _) (size_use_lt h)

theorem size_skipGapFrom_le (inComment : Bool) (l : Lexer σ) :
    (skipGapFrom inComment l).size ≤ l.size := by
  fun_induction skipGapFrom inComment l with
  | case1 => exact Nat.le_refl _
  | case2 l x hx ih => exact Nat.le_trans ih (Nat.le_of_lt (size_use_lt hx))
  | case3 inComment l x hx _ _ ih => exact Nat.le_trans ih (Nat.le_of_lt (size_use_lt hx))
  | case4 inComment l _ hx _ ih => exact Nat.le_trans ih (Nat.le_of_lt (size_use_lt hx))
  | case5 => exact Nat.le_refl _

/-- A token uses up at least one character. -/
theorem size_next_le (l : Lexer σ) : l.next.2.size + l.next.1.toList.length ≤ l.size := by
  refine Nat.le_trans ?_ (size_skipGapFrom_le false l)
  show _ ≤ l.skipGap.size
  unfold next
  simp only
  split
  · exact Nat.le_refl _
  · next x hx =>
    split
    · next halpha => exact size_span_lt hx (by simp [Char.isAlphanum, halpha])
    · split
      · next hnumeric => exact size_span_lt hx hnumeric
      · exact size_use_lt hx

end Lexer

end Formulary

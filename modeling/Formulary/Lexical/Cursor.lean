import Formulary.Text.Blank

/-!
# Reading characters one at a time

A `Cursor` is a place in a text that is read on demand. The first pending character is in the
hand: it has been read but not used. Those behind it have not been looked at, and `asked` counts
how often the text has been asked for its next character. To use the character in the hand is to
ask for the next one.

* `Cursor.span`: uses up a run of characters, the longest that a class allows (`span_eq`).
* `Cursor.skipGap`: uses up blanks and comments.
-/

namespace Formulary

/-- A place in a text that is read on demand. -/
structure Cursor where
  /-- The character in the hand and the ones behind it; none once the end has been met. -/
  pending : List Char
  /-- How often the next character has been asked for, the end included. -/
  asked : Nat
deriving DecidableEq

namespace Cursor

/-- Before the first character: a blank in the hand makes the first use read real text. -/
def start (text : List Char) : Cursor := ⟨' ' :: text, 0⟩

/-! ## Runs of characters -/

/-- Uses up characters for as long as `p` accepts them. They stand behind `taken`, which is in
    reverse. -/
def spanOnto (p : Char → Bool) (taken : List Char) (asked : Nat) :
    List Char → List Char × Cursor
  | [] => (taken.reverse, ⟨[], asked⟩)
  | x :: rest =>
    if p x then spanOnto p (x :: taken) (asked + 1) rest
    else (taken.reverse, ⟨x :: rest, asked⟩)

/-- The longest run of characters that `p` accepts, and the place behind it. -/
def span (p : Char → Bool) (c : Cursor) : List Char × Cursor := spanOnto p [] c.asked c.pending

theorem spanOnto_eq (p : Char → Bool) (taken : List Char) (asked : Nat) (pending : List Char) :
    spanOnto p taken asked pending =
      (taken.reverse ++ pending.takeWhile p,
        ⟨pending.dropWhile p, asked + (pending.takeWhile p).length⟩) := by
  induction pending generalizing taken asked with
  | nil => simp [spanOnto]
  | cons x rest ih =>
    unfold spanOnto
    by_cases h : p x
    · rw [if_pos h, ih]
      simp only [List.takeWhile_cons, List.dropWhile_cons, h, ↓reduceIte, List.reverse_cons,
        List.append_assoc, List.singleton_append, List.length_cons]
      rw [show asked + 1 + (rest.takeWhile p).length = asked + ((rest.takeWhile p).length + 1) by
        omega]
    · simp [h]

/-- A run is as long as it can be, and each of its characters was asked for once. -/
theorem span_eq (p : Char → Bool) (c : Cursor) :
    c.span p = (c.pending.takeWhile p,
      ⟨c.pending.dropWhile p, c.asked + (c.pending.takeWhile p).length⟩) := by
  unfold span
  rw [spanOnto_eq, List.reverse_nil, List.nil_append]

/-! ## Gaps -/

/-- The end of a comment: a character that ends a line. -/
def endsLine (c : Char) : Bool := c = '\n' || c = '\r'

/-- Uses up blanks and comments. A comment runs from a number sign to the end of its line; the
    flag says whether the hand is inside one. -/
def skipGapFrom (inComment : Bool) (asked : Nat) : List Char → Cursor
  | [] => ⟨[], asked⟩
  | x :: rest =>
    if inComment then skipGapFrom (!endsLine x) (asked + 1) rest
    else if isBlank x then skipGapFrom false (asked + 1) rest
    else if x = '#' then skipGapFrom true (asked + 1) rest
    else ⟨x :: rest, asked⟩

/-- The place of the first character that is neither blank nor in a comment. -/
def skipGap (c : Cursor) : Cursor := skipGapFrom false c.asked c.pending

theorem skipGapFrom_suffix (inComment : Bool) (asked : Nat) (pending : List Char) :
    (skipGapFrom inComment asked pending).pending <:+ pending := by
  induction pending generalizing inComment asked with
  | nil => exact List.suffix_rfl
  | cons x rest ih =>
    unfold skipGapFrom
    split
    · exact (ih _ _).trans (List.suffix_cons _ _)
    · split
      · exact (ih _ _).trans (List.suffix_cons _ _)
      · split
        · exact (ih _ _).trans (List.suffix_cons _ _)
        · exact List.suffix_rfl

/-- What is pending behind a gap was pending before it. -/
theorem skipGap_suffix (c : Cursor) : c.skipGap.pending <:+ c.pending :=
  skipGapFrom_suffix false c.asked c.pending

end Cursor

end Formulary

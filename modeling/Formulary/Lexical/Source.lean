/-!
# Sources of characters

Text is handed out by a source, one character at a time and only when it is asked for. A source can
be asked again after it has handed out an end. Between two ends it hands out finitely many
characters, which its size bounds.

* `CharSource`: what it takes to be a source; the characters of a list are one.
* `CharSource.chars`: the characters up to the next end.
* `CharSource.after`: what is left after a number of calls.
-/

namespace Formulary

/-- A source of characters. -/
class CharSource (σ : Type) where
  /-- The next character, or an end, and what is left. -/
  next : σ → Option Char × σ
  /-- A bound on the characters that are left. -/
  size : σ → Nat
  /-- A character that is handed out counts as one, and no call raises the bound. -/
  size_next : ∀ s, size (next s).2 + (next s).1.toList.length ≤ size s

namespace CharSource

/-- The characters of a list, and then ends. -/
instance : CharSource (List Char) where
  next
    | [] => (none, [])
    | c :: rest => (some c, rest)
  size := List.length
  size_next
    | [] => Nat.le_refl _
    | _ :: _ => Nat.le_refl _

variable {σ : Type} [CharSource σ]

theorem size_lt_of_next {s s' : σ} {c : Char} (h : next s = (some c, s')) : size s' < size s := by
  have hle := size_next s
  rw [h] at hle
  exact hle

/-- The characters that are handed out up to the next end. -/
def chars (s : σ) : List Char :=
  match _h : next s with
  | (none, _) => []
  | (some c, s') => c :: chars s'
termination_by size s
decreasing_by exact size_lt_of_next _h

theorem chars_of_none {s s' : σ} (h : next s = (none, s')) : chars s = [] := by
  rw [chars]
  split
  · rfl
  · next h' =>
    rw [h] at h'
    simp at h'

theorem chars_of_some {s s' : σ} {c : Char} (h : next s = (some c, s')) :
    chars s = c :: chars s' := by
  rw [chars]
  split
  · next h' =>
    rw [h] at h'
    simp at h'
  · next h' =>
    rw [h] at h'
    obtain ⟨hc, rfl⟩ := Prod.mk.inj h'
    rw [Option.some.inj hc]

/-- What is left of a source after a number of calls. -/
def after (s : σ) : (calls : Nat) → σ
  | 0 => s
  | calls + 1 => after (next s).2 calls

end CharSource

end Formulary

import Formulary.Grammar.ParseError

/-!
# Readers of phrases

A reader takes a phrase from the front of a list of tokens. It yields the meaning of the phrase or
the first fault, and in both cases the tokens that are left. What is left is always an end of what
there was, so a loop over readers that uses up a token in each round comes to an end.

* `Parsed`: the outcome of reading.
* `Reader`: a reading function that only takes tokens from the front.
-/

namespace Formulary

/-- The outcome of reading a phrase, and the tokens that are left. -/
structure Parsed (α : Type) where
  result : Except ParseError α
  rest : List Token

namespace Parsed

variable {α β : Type}

/-- A phrase that was read. -/
def ok (a : α) (rest : List Token) : Parsed α := ⟨.ok a, rest⟩

/-- A fault. -/
def fail (e : ParseError) (rest : List Token) : Parsed α := ⟨.error e, rest⟩

/-- Goes on reading behind a phrase, unless there was a fault. -/
def bind (p : Parsed α) (next : α → List Token → Parsed β) : Parsed β :=
  match p.result with
  | .ok a => next a p.rest
  | .error e => fail e p.rest

/-- Applies a function to the meaning of a phrase. -/
def map (f : α → β) (p : Parsed α) : Parsed β := p.bind fun a rest => ok (f a) rest

@[simp] theorem rest_ok (a : α) (rest : List Token) : (ok a rest).rest = rest := rfl

@[simp] theorem rest_fail (e : ParseError) (rest : List Token) :
    (fail e rest : Parsed α).rest = rest := rfl

@[simp] theorem rest_map (f : α → β) (p : Parsed α) : (p.map f).rest = p.rest := by
  unfold map bind
  split <;> rfl

theorem map_map {γ : Type} (f : α → β) (g : β → γ) (p : Parsed α) :
    (p.map f).map g = p.map (fun a => g (f a)) := by
  obtain ⟨result, rest⟩ := p
  cases result <;> rfl

/-- What holds of the rest of a phrase and carries over to all that is read behind it holds of
    the rest of both. -/
theorem bind_suffix {p : Parsed α} {next : α → List Token → Parsed β} {tokens : List Token}
    (hp : p.rest <:+ tokens) (hnext : ∀ a rest, rest <:+ tokens → (next a rest).rest <:+ tokens) :
    (p.bind next).rest <:+ tokens := by
  unfold bind
  split
  · exact hnext _ _ hp
  · exact hp

end Parsed

/-- A reading function that only takes tokens from the front. -/
structure Reader (α : Type) where
  read : List Token → Parsed α
  suffix : ∀ tokens, (read tokens).rest <:+ tokens

/-- A reader that takes nothing and reports a fault. -/
def Reader.fail {α : Type} (e : ParseError) : Reader α :=
  ⟨fun tokens => .fail e tokens, fun _ => List.suffix_rfl⟩

theorem Reader.length_le_of_read {α : Type} (r : Reader α) {tokens rest : List Token}
    {result : Except ParseError α} (h : r.read tokens = ⟨result, rest⟩) :
    rest.length ≤ tokens.length := by
  have hle := (r.suffix tokens).length_le
  rwa [h] at hle

/-- The rest behind a token that stands at the front of a reader's rest is shorter than what the
    reader was given. -/
theorem Reader.length_lt_of_rest {α : Type} (r : Reader α) {tokens rest : List Token} {t : Token}
    (h : (r.read tokens).rest = t :: rest) : rest.length < tokens.length := by
  have := (r.suffix tokens).length_le
  rw [h] at this
  exact this

end Formulary

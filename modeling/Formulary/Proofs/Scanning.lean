import Formulary.Lexical.Scan
import Mathlib.Data.List.Basic

/-!
# The tokens of a text by its first character

Scanning counts how often the next character has been asked for. The tokens do not depend on that
count: they are decided by the class of the first character and by the text behind its token.

* `readings_token`: the tokens from a place on are those of the text that is pending there.
* `tokens_blank`, `tokens_comment`, `tokens_word`, `tokens_literal`, `tokens_symbol`: the first
  token of a text, by the class of its first character.
* `textInduction`: induction along the tokens and gaps of a text.
* `tokens_append_line`: a line break ends every token and every comment.
* `isIdentifier_of_mem_tokens`: identifiers are words other than the keywords.
-/

namespace Formulary

/-! ## Classes of characters -/

/-- A character that is a token of its own. -/
structure IsSymbol (x : Char) : Prop where
  notBlank : isBlank x = false
  notComment : x ≠ '#'
  notAlpha : x.isAlpha = false
  notNumeric : isNumeric x = false

/-- Letters, digits and the point stand neither for a blank nor for the start of a comment. -/
theorem not_gap_of_range {x : Char} (h : 46 ≤ x.toNat ∧ x.toNat ≤ 122) :
    isBlank x = false ∧ x ≠ '#' := by
  constructor
  · rw [Bool.eq_false_iff]
    intro hblank
    obtain ⟨⟨first, last⟩, hmem, hfirst, hlast⟩ := Ranges.holds_iff.mp hblank
    simp only [blankRanges, List.mem_cons, Prod.mk.injEq, List.not_mem_nil, or_false] at hmem
    omega
  · rintro rfl
    simp at h

theorem range_of_isAlpha {x : Char} (h : x.isAlpha = true) :
    (65 ≤ x.toNat ∧ x.toNat ≤ 90) ∨ (97 ≤ x.toNat ∧ x.toNat ≤ 122) := by
  rcases Bool.or_eq_true_iff.mp h with hupper | hlower
  · obtain ⟨hlow, hhigh⟩ := of_decide_eq_true hupper
    exact .inl ⟨UInt32.le_iff_toNat_le.mp hlow, UInt32.le_iff_toNat_le.mp hhigh⟩
  · obtain ⟨hlow, hhigh⟩ := Bool.and_eq_true_iff.mp hlower
    exact .inr ⟨UInt32.le_iff_toNat_le.mp (of_decide_eq_true hlow),
      UInt32.le_iff_toNat_le.mp (of_decide_eq_true hhigh)⟩

theorem not_gap_of_isAlpha {x : Char} (h : x.isAlpha = true) : isBlank x = false ∧ x ≠ '#' := by
  have hrange := range_of_isAlpha h
  apply not_gap_of_range
  omega

theorem not_gap_of_isNumeric {x : Char} (h : isNumeric x = true) :
    isBlank x = false ∧ x ≠ '#' := by
  apply not_gap_of_range
  simp only [isNumeric, Bool.or_eq_true, decide_eq_true_eq] at h
  rcases h with h | rfl
  · have := Char.isDigit_iff_toNat.mp h
    change 48 ≤ x.toNat ∧ x.toNat ≤ 57 at this
    omega
  · decide

theorem not_isAlpha_of_isNumeric {x : Char} (h : isNumeric x = true) : x.isAlpha = false := by
  simp only [isNumeric, Bool.or_eq_true, decide_eq_true_eq] at h
  rcases h with h | rfl
  · have hdigit := Char.isDigit_iff_toNat.mp h
    change 48 ≤ x.toNat ∧ x.toNat ≤ 57 at hdigit
    rw [Bool.eq_false_iff]
    intro halpha
    have hrange := range_of_isAlpha halpha
    omega
  · decide

/-! ## Gaps -/

namespace Cursor

/-- What a gap leaves does not depend on how much has been asked for. -/
theorem skipGapFrom_pending (inComment : Bool) (asked asked' : Nat) (pending : List Char) :
    (skipGapFrom inComment asked pending).pending =
      (skipGapFrom inComment asked' pending).pending := by
  induction pending generalizing inComment asked asked' with
  | nil => rfl
  | cons x rest ih =>
    unfold skipGapFrom
    split_ifs
    · exact ih _ _ _
    · exact ih _ _ _
    · exact ih _ _ _
    · rfl

theorem skipGapFrom_comment (asked : Nat) (pending : List Char) :
    (skipGapFrom true asked pending).pending =
      (skipGapFrom false asked (pending.dropWhile (!endsLine ·))).pending := by
  induction pending generalizing asked with
  | nil => rfl
  | cons x rest ih =>
    rw [skipGapFrom, if_pos rfl]
    cases hx : endsLine x with
    | false =>
      rw [List.dropWhile_cons_of_pos (by simp [hx]), Bool.not_false, ih]
      exact skipGapFrom_pending _ _ _ _
    | true =>
      have hblank : isBlank x = true := by
        simp only [endsLine, Bool.or_eq_true, decide_eq_true_eq] at hx
        rcases hx with rfl | rfl <;> decide
      rw [List.dropWhile_cons_of_neg (by simp [hx]), skipGapFrom, if_neg (by simp), if_pos hblank]
      rfl

theorem skipGapFrom_of_notGap {x : Char} (h : isBlank x = false ∧ x ≠ '#') (asked : Nat)
    (rest : List Char) : skipGapFrom false asked (x :: rest) = ⟨x :: rest, asked⟩ := by
  rw [skipGapFrom, if_neg (by simp), if_neg (by simp [h.1]), if_neg h.2]

/-- The next token, and what is pending behind it, depend only on what is pending behind the
    gap. -/
theorem next_congr {c c' : Cursor} (strict : Bool)
    (h : c.skipGap.pending = c'.skipGap.pending) :
    (c.next strict).1 = (c'.next strict).1 ∧
      (c.next strict).2.pending = (c'.next strict).2.pending := by
  unfold next
  simp only
  rw [h]
  split
  · exact ⟨rfl, by rw [h]⟩
  · simp only [span_eq, h]
    split_ifs <;> exact ⟨rfl, rfl⟩

/-- Places with the same text behind the gap have the same tokens. -/
theorem readings_congr {c c' : Cursor} (strict : Bool)
    (h : c.skipGap.pending = c'.skipGap.pending) :
    (c.readings strict).map (·.token) = (c'.readings strict).map (·.token) := by
  induction hn : c.pending.length using Nat.strongRecOn generalizing c c' with
  | ind n ih =>
    obtain ⟨htoken, hpending⟩ := next_congr strict h
    rcases hc : c.next strict with ⟨t?, after⟩
    rcases hc' : c'.next strict with ⟨t'?, after'⟩
    rw [hc, hc'] at htoken hpending
    obtain rfl : t? = t'? := htoken
    cases t? with
    | none => rw [readings_of_none hc, readings_of_none hc']
    | some t =>
      rw [readings_of_some hc, readings_of_some hc', List.map_cons, List.map_cons]
      congr 1
      refine ih _ (hn ▸ length_lt_of_next hc) ?_ rfl
      unfold skipGap
      rw [show after.pending = after'.pending from hpending]
      exact skipGapFrom_pending _ _ _ _

/-- The tokens from a place on are those of the text that is pending there. -/
theorem readings_token (strict : Bool) (c : Cursor) :
    (c.readings strict).map (·.token) = tokens strict c.pending := by
  refine readings_congr strict ?_
  show _ = (skipGapFrom false 0 (' ' :: c.pending)).pending
  rw [skipGapFrom, if_neg (by simp), if_pos (by decide)]
  exact skipGapFrom_pending _ _ _ _

end Cursor

/-! ## The first token -/

section First

variable {strict : Bool}

theorem tokens_congr {text text' : List Char}
    (h : (Cursor.skipGapFrom false 0 text).pending = (Cursor.skipGapFrom false 0 text').pending) :
    tokens strict text = tokens strict text' := by
  have hreadings := @Cursor.readings_congr ⟨text, 0⟩ ⟨text', 0⟩ strict h
  rwa [Cursor.readings_token, Cursor.readings_token] at hreadings

theorem tokens_of_next {text : List Char} {t : Token} {after : Cursor}
    (h : Cursor.next strict ⟨text, 0⟩ = (some t, after)) :
    tokens strict text = t :: tokens strict after.pending := by
  have hreadings := congrArg (List.map (·.token)) (Cursor.readings_of_some h)
  rwa [List.map_cons, Cursor.readings_token, Cursor.readings_token] at hreadings

@[simp] theorem tokens_nil : tokens strict [] = [] := by
  have hnone : Cursor.next strict ⟨[], 0⟩ = (none, ⟨[], 0⟩) := rfl
  have hreadings := congrArg (List.map (·.token)) (Cursor.readings_of_none hnone)
  rwa [Cursor.readings_token] at hreadings

theorem tokens_blank {x : Char} (hx : isBlank x = true) (rest : List Char) :
    tokens strict (x :: rest) = tokens strict rest := by
  apply tokens_congr
  rw [Cursor.skipGapFrom, if_neg (by simp), if_pos hx]
  exact Cursor.skipGapFrom_pending _ _ _ _

theorem tokens_comment (rest : List Char) :
    tokens strict ('#' :: rest) = tokens strict (rest.dropWhile (!Cursor.endsLine ·)) := by
  apply tokens_congr
  rw [Cursor.skipGapFrom, if_neg (by simp), if_neg (by decide), if_pos rfl,
    Cursor.skipGapFrom_comment]
  exact Cursor.skipGapFrom_pending _ _ _ _

theorem tokens_word {x : Char} (hx : x.isAlpha = true) (rest : List Char) :
    tokens strict (x :: rest) =
      Token.ofWord (x :: rest.takeWhile Char.isAlphanum) ::
        tokens strict (rest.dropWhile Char.isAlphanum) := by
  have halnum : x.isAlphanum = true := by simp [Char.isAlphanum, hx]
  have hskip := Cursor.skipGapFrom_of_notGap (not_gap_of_isAlpha hx) 0 rest
  have hnext : Cursor.next strict ⟨x :: rest, 0⟩ =
      (some (Token.ofWord ((x :: rest).takeWhile Char.isAlphanum)),
        ⟨(x :: rest).dropWhile Char.isAlphanum,
          0 + ((x :: rest).takeWhile Char.isAlphanum).length⟩) := by
    simp only [Cursor.next, Cursor.skipGap, hskip, hx, ↓reduceIte, Cursor.span_eq]
  rw [tokens_of_next hnext, List.takeWhile_cons_of_pos halnum, List.dropWhile_cons_of_pos halnum]

theorem tokens_literal {x : Char} (hx : isNumeric x = true) (rest : List Char) :
    tokens strict (x :: rest) =
      Token.ofLiteral strict (x :: rest.takeWhile isNumeric) ::
        tokens strict (rest.dropWhile isNumeric) := by
  have hskip := Cursor.skipGapFrom_of_notGap (not_gap_of_isNumeric hx) 0 rest
  have hnext : Cursor.next strict ⟨x :: rest, 0⟩ =
      (some (Token.ofLiteral strict ((x :: rest).takeWhile isNumeric)),
        ⟨(x :: rest).dropWhile isNumeric, 0 + ((x :: rest).takeWhile isNumeric).length⟩) := by
    simp only [Cursor.next, Cursor.skipGap, hskip, not_isAlpha_of_isNumeric hx, hx,
      Bool.false_eq_true, ↓reduceIte, Cursor.span_eq]
  rw [tokens_of_next hnext, List.takeWhile_cons_of_pos hx, List.dropWhile_cons_of_pos hx]

theorem tokens_symbol {x : Char} (hx : IsSymbol x) (rest : List Char) :
    tokens strict (x :: rest) = .symbol x :: tokens strict rest := by
  have hskip := Cursor.skipGapFrom_of_notGap ⟨hx.notBlank, hx.notComment⟩ 0 rest
  have hnext : Cursor.next strict ⟨x :: rest, 0⟩ = (some (.symbol x), ⟨rest, 0 + 1⟩) := by
    simp only [Cursor.next, Cursor.skipGap, hskip, hx.notAlpha, hx.notNumeric,
      Bool.false_eq_true, ↓reduceIte]
  exact tokens_of_next hnext

end First

/-! ## Along a text -/

/-- Induction along the gaps and tokens of a text. -/
@[elab_as_elim]
theorem textInduction {motive : List Char → Prop} (nil : motive [])
    (blank : ∀ x rest, isBlank x = true → motive rest → motive (x :: rest))
    (comment : ∀ rest, motive (rest.dropWhile (!Cursor.endsLine ·)) → motive ('#' :: rest))
    (word : ∀ x rest, x.isAlpha = true → motive (rest.dropWhile Char.isAlphanum) →
      motive (x :: rest))
    (literal : ∀ x rest, isNumeric x = true → motive (rest.dropWhile isNumeric) →
      motive (x :: rest))
    (symbol : ∀ x rest, IsSymbol x → motive rest → motive (x :: rest)) (text : List Char) :
    motive text := by
  induction hn : text.length using Nat.strongRecOn generalizing text with
  | ind n ih =>
    cases text with
    | nil => exact nil
    | cons x rest =>
      have hlt : ∀ p : Char → Bool, (rest.dropWhile p).length < n := by
        intro p
        have hle := (List.dropWhile_suffix (l := rest) p).length_le
        rw [List.length_cons] at hn
        omega
      have hrest : rest.length < n := by
        rw [List.length_cons] at hn
        omega
      by_cases hblank : isBlank x = true
      · exact blank x rest hblank (ih _ hrest rest rfl)
      by_cases hcomment : x = '#'
      · subst hcomment
        exact comment rest (ih _ (hlt _) _ rfl)
      by_cases halpha : x.isAlpha = true
      · exact word x rest halpha (ih _ (hlt _) _ rfl)
      by_cases hnumeric : isNumeric x = true
      · exact literal x rest hnumeric (ih _ (hlt _) _ rfl)
      · exact symbol x rest ⟨by simpa using hblank, hcomment, by simpa using halpha,
          by simpa using hnumeric⟩ (ih _ hrest rest rfl)

/-- A run ends at the latest in front of a character that it cannot take. -/
theorem takeWhile_append_stop {p : Char → Bool} {x : Char} (hx : p x = false) (a rest : List Char) :
    (a ++ x :: rest).takeWhile p = a.takeWhile p := by
  rw [List.takeWhile_append]
  split_ifs with hall
  · rw [List.takeWhile_cons_of_neg (by simp [hx]), List.append_nil]
    exact ((List.takeWhile_prefix p).eq_of_length hall).symm
  · rfl

theorem dropWhile_append_stop {p : Char → Bool} {x : Char} (hx : p x = false) (a rest : List Char) :
    (a ++ x :: rest).dropWhile p = a.dropWhile p ++ x :: rest := by
  rw [List.dropWhile_append]
  split_ifs with hall
  · rw [List.dropWhile_cons_of_neg (by simp [hx]), List.isEmpty_iff.mp hall, List.nil_append]
  · rfl

/-- A run ends in front of what it cannot take. -/
theorem span_boundary {α : Type} {p : α → Bool} {run rest : List α} (hrun : ∀ c ∈ run, p c = true)
    (hrest : ∀ x tail, rest = x :: tail → p x = false) :
    (run ++ rest).takeWhile p = run ∧ (run ++ rest).dropWhile p = rest := by
  rw [List.takeWhile_append_of_pos hrun, List.dropWhile_append_of_pos hrun]
  cases rest with
  | nil => simp
  | cons x tail =>
    have hx := hrest x tail rfl
    rw [List.takeWhile_cons_of_neg (by simp [hx]), List.dropWhile_cons_of_neg (by simp [hx])]
    simp

/-- A line break ends every token and every comment, so the tokens of a text are those before it and
    those behind it. -/
theorem tokens_append_line (strict : Bool) (a rest : List Char) :
    tokens strict (a ++ '\n' :: rest) = tokens strict a ++ tokens strict rest := by
  induction a using textInduction with
  | nil => rw [List.nil_append, tokens_blank (by decide), tokens_nil, List.nil_append]
  | blank x a hx ih => rw [List.cons_append, tokens_blank hx, tokens_blank hx, ih]
  | comment a ih =>
    rw [List.cons_append, tokens_comment, tokens_comment, dropWhile_append_stop (by decide), ih]
  | word x a hx ih =>
    rw [List.cons_append, tokens_word hx, tokens_word hx, takeWhile_append_stop (by decide),
      dropWhile_append_stop (by decide), ih, List.cons_append]
  | literal x a hx ih =>
    rw [List.cons_append, tokens_literal hx, tokens_literal hx, takeWhile_append_stop (by decide),
      dropWhile_append_stop (by decide), ih, List.cons_append]
  | symbol x a hx ih =>
    rw [List.cons_append, tokens_symbol hx, tokens_symbol hx, ih, List.cons_append]

/-! ## Identifiers -/

/-- A letter followed by letters and digits. -/
def isWord : List Char → Bool
  | [] => false
  | x :: rest => x.isAlpha && rest.all Char.isAlphanum

/-- A word that is not a keyword. -/
structure IsIdentifier (name : String) : Prop where
  word : isWord name.toList = true
  notDefine : name ≠ "def"
  notDeclare : name ≠ "extern"

/-- A word that is not a keyword is the token of an identifier. -/
theorem Token.ofWord_eq_identifier_iff {word : List Char} {name : String} :
    Token.ofWord word = .identifier name ↔
      name = String.ofList word ∧ name ≠ "def" ∧ name ≠ "extern" := by
  unfold Token.ofWord
  split_ifs with hdef hdeclare
  · simp +contextual [hdef]
  · simp +contextual [hdeclare]
  · rw [Token.identifier.injEq]
    constructor
    · rintro rfl
      refine ⟨rfl, fun h => hdef ?_, fun h => hdeclare ?_⟩
      · rw [← h, String.toList_ofList]
      · rw [← h, String.toList_ofList]
    · rintro ⟨rfl, -⟩
      rfl

theorem isIdentifier_of_mem_tokens {strict : Bool} {text : List Char} {name : String}
    (h : .identifier name ∈ tokens strict text) : IsIdentifier name := by
  induction text using textInduction with
  | nil => simp at h
  | blank x rest hx ih => exact ih (tokens_blank hx rest ▸ h)
  | comment rest ih => exact ih (tokens_comment rest ▸ h)
  | word x rest hx ih =>
    rw [tokens_word hx] at h
    rcases List.mem_cons.mp h with hword | h
    · obtain ⟨rfl, hdef, hdeclare⟩ := Token.ofWord_eq_identifier_iff.mp hword.symm
      refine ⟨?_, hdef, hdeclare⟩
      rw [String.toList_ofList, isWord, hx, Bool.true_and]
      exact List.all_takeWhile
    · exact ih h
  | literal x rest hx ih =>
    rw [tokens_literal hx] at h
    rcases List.mem_cons.mp h with hliteral | h
    · unfold Token.ofLiteral at hliteral
      simp only at hliteral
      split_ifs at hliteral
    · exact ih h
  | symbol x rest hx ih =>
    rw [tokens_symbol hx] at h
    rcases List.mem_cons.mp h with hsymbol | h
    · simp at hsymbol
    · exact ih h

end Formulary

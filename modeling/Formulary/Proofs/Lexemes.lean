import Formulary.Proofs.Scanning
import Mathlib.Data.List.TakeWhile

/-!
# A text is its lexemes and the gaps between them

Every text is a gap followed by lexemes, each with a gap behind it. A gap is made of blanks and of
comments that run to the end of their line; a lexeme is a word, a run of digits and points, or one
other character, and is as long as it can be. Asking for one token after the other yields the tokens
of the lexemes in order and then the end for ever. When a token is returned, the text has been
asked for the characters up to the end of its lexeme and for one more.

* `Gap`, `Lexeme`, `Lexeme.Munched`, `Pieces`, `Decomposes`: what a text is made of.
* `exists_decomposes`: every text is made so.
* `Cursor.next_of_lexeme`, `Cursor.call_of_decomposes`: what asking for a token yields, and how far
  it reads; `pulledAfter_eq` for the characters that were read.
* `tokens_of_decomposes`: the tokens of a text are those of its lexemes.
* `next_yields_lexemes`: all of it for repeated asking.
-/

namespace Formulary

/-! ## Gaps and lexemes -/

/-- A gap in front of the text `rest`: blanks, and comments from a number sign up to the end of the
    line or of the text. -/
inductive Gap (rest : List Char) : List Char → Prop
  | nil : Gap rest []
  | blank {x : Char} {gap : List Char} (hx : isBlank x = true) (hgap : Gap rest gap) :
      Gap rest (x :: gap)
  | comment {body gap : List Char} (hbody : ∀ x ∈ body, Cursor.endsLine x = false)
      (hend : ∀ x tail, gap ++ rest = x :: tail → Cursor.endsLine x = true)
      (hgap : Gap rest gap) : Gap rest ('#' :: (body ++ gap))

/-- The part of a text that a token is read from. -/
inductive Lexeme
  | word (text : List Char)
  /-- A run of digits and points. -/
  | literal (text : List Char)
  | symbol (c : Char)

/-- The characters of a lexeme. -/
def Lexeme.text : Lexeme → List Char
  | word text => text
  | literal text => text
  | symbol c => [c]

/-- The token of a lexeme, in strict reading or not. -/
def Lexeme.token (strict : Bool) : Lexeme → Token
  | word text => .ofWord text
  | literal text => .ofLiteral strict text
  | symbol c => .symbol c

/-- The lexeme is of its kind, and in front of the text `rest` it is as long as it can be. -/
def Lexeme.Munched (rest : List Char) : Lexeme → Prop
  | word text => isWord text = true ∧ ∀ x tail, rest = x :: tail → x.isAlphanum = false
  | literal text => text ≠ [] ∧ (∀ x ∈ text, isNumeric x = true) ∧
      ∀ x tail, rest = x :: tail → isNumeric x = false
  | symbol c => IsSymbol c

/-- A lexeme with the gap behind it. -/
structure Piece where
  lexeme : Lexeme
  gap : List Char

/-- The characters of lexemes and gaps in order. -/
def spell : List Piece → List Char
  | [] => []
  | piece :: rest => piece.lexeme.text ++ (piece.gap ++ spell rest)

/-- Each lexeme is as long as it can be, and behind it is a gap. -/
inductive Pieces : List Piece → Prop
  | nil : Pieces []
  | cons {lexeme : Lexeme} {gap : List Char} {rest : List Piece}
      (hlexeme : lexeme.Munched (gap ++ spell rest)) (hgap : Gap (spell rest) gap)
      (hrest : Pieces rest) : Pieces (⟨lexeme, gap⟩ :: rest)

/-- The text is the gap followed by the pieces. -/
structure Decomposes (text gap : List Char) (pieces : List Piece) : Prop where
  whole : text = gap ++ spell pieces
  gap : Gap (spell pieces) gap
  pieces : Pieces pieces

theorem head_dropWhile {p : Char → Bool} {text : List Char} (x : Char) (tail : List Char)
    (h : text.dropWhile p = x :: tail) : p x = false := by
  have hne : text.dropWhile p ≠ [] := by simp [h]
  have hhead := List.head_dropWhile_not p hne
  simpa [h] using hhead

theorem exists_decomposes (text : List Char) : ∃ gap pieces, Decomposes text gap pieces := by
  induction text using textInduction with
  | nil => exact ⟨[], [], rfl, .nil, .nil⟩
  | blank x rest hx ih =>
    obtain ⟨gap, pieces, hwhole, hgap, hpieces⟩ := ih
    exact ⟨x :: gap, pieces, by rw [hwhole, List.cons_append], .blank hx hgap, hpieces⟩
  | comment rest ih =>
    obtain ⟨gap, pieces, hwhole, hgap, hpieces⟩ := ih
    refine ⟨'#' :: (rest.takeWhile (!Cursor.endsLine ·) ++ gap), pieces, ?_, ?_, hpieces⟩
    · rw [List.cons_append, List.append_assoc, ← hwhole, List.takeWhile_append_dropWhile]
    · refine .comment (fun x hx => ?_) (fun x tail heq => ?_) hgap
      · simpa using List.mem_takeWhile_imp hx
      · rw [← hwhole] at heq
        simpa using head_dropWhile x tail heq
  | word x rest hx ih =>
    obtain ⟨gap, pieces, hwhole, hgap, hpieces⟩ := ih
    refine ⟨[], ⟨.word (x :: rest.takeWhile Char.isAlphanum), gap⟩ :: pieces, ?_, .nil,
      .cons ⟨?_, ?_⟩ hgap hpieces⟩
    · show x :: rest = x :: rest.takeWhile Char.isAlphanum ++ (gap ++ spell pieces)
      rw [← hwhole, List.cons_append, List.takeWhile_append_dropWhile]
    · rw [isWord, hx, Bool.true_and]
      exact List.all_takeWhile
    · rw [← hwhole]
      exact head_dropWhile
  | literal x rest hx ih =>
    obtain ⟨gap, pieces, hwhole, hgap, hpieces⟩ := ih
    refine ⟨[], ⟨.literal (x :: rest.takeWhile isNumeric), gap⟩ :: pieces, ?_, .nil,
      .cons ⟨by simp, ?_, ?_⟩ hgap hpieces⟩
    · show x :: rest = x :: rest.takeWhile isNumeric ++ (gap ++ spell pieces)
      rw [← hwhole, List.cons_append, List.takeWhile_append_dropWhile]
    · intro y hy
      rcases List.mem_cons.mp hy with rfl | hy
      · exact hx
      · exact List.mem_takeWhile_imp hy
    · rw [← hwhole]
      exact head_dropWhile
  | symbol x rest hx ih =>
    obtain ⟨gap, pieces, hwhole, hgap, hpieces⟩ := ih
    refine ⟨[], ⟨.symbol x, gap⟩ :: pieces, ?_, .nil, .cons hx hgap hpieces⟩
    rw [hwhole]
    rfl

/-! ## Asking for a token -/

/-- A lexeme begins with a character that belongs to no gap. -/
theorem Lexeme.Munched.head {rest : List Char} {lexeme : Lexeme} (h : lexeme.Munched rest) :
    ∃ x tail, lexeme.text = x :: tail ∧ isBlank x = false ∧ x ≠ '#' := by
  cases lexeme with
  | word text =>
    obtain ⟨hword, -⟩ := h
    cases text with
    | nil => simp [isWord] at hword
    | cons x tail =>
      rw [isWord, Bool.and_eq_true] at hword
      exact ⟨x, tail, rfl, not_gap_of_isAlpha hword.1⟩
  | literal text =>
    obtain ⟨hne, hall, -⟩ := h
    obtain ⟨x, tail, rfl⟩ := List.exists_cons_of_ne_nil hne
    exact ⟨x, tail, rfl, not_gap_of_isNumeric (hall x (by simp))⟩
  | symbol c => exact ⟨c, [], rfl, h.notBlank, h.notComment⟩

namespace Cursor

/-- A comment is used up to the end of its line, one character at a time. -/
theorem skipGapFrom_body {body rest : List Char} (hbody : ∀ x ∈ body, endsLine x = false)
    (hend : ∀ x tail, rest = x :: tail → endsLine x = true) (asked : Nat) :
    skipGapFrom true asked (body ++ rest) = skipGapFrom false (asked + body.length) rest := by
  induction body generalizing asked with
  | nil =>
    cases rest with
    | nil => rfl
    | cons x tail =>
      -- the end of a line is blank, so outside a comment it is used up as well
      have hx := hend x tail rfl
      have hblank : isBlank x = true := by
        simp only [endsLine, Bool.or_eq_true, decide_eq_true_eq] at hx
        rcases hx with rfl | rfl <;> decide
      rw [List.nil_append, skipGapFrom, if_pos rfl, skipGapFrom, if_neg (by simp), if_pos hblank, hx]
      rfl
  | cons x body ih =>
    have hx := hbody x (by simp)
    rw [List.cons_append, skipGapFrom, if_pos rfl, hx, Bool.not_false,
      ih (fun y hy => hbody y (List.mem_cons_of_mem x hy)), List.length_cons]
    congr 1
    omega

/-- A gap is used up, one character at a time, and nothing behind it. -/
theorem skipGapFrom_gap {gap rest : List Char} (h : Gap rest gap)
    (hrest : ∀ x tail, rest = x :: tail → isBlank x = false ∧ x ≠ '#') (asked : Nat) :
    skipGapFrom false asked (gap ++ rest) = ⟨rest, asked + gap.length⟩ := by
  induction h generalizing asked with
  | nil =>
    cases rest with
    | nil => rfl
    | cons x tail => exact skipGapFrom_of_notGap (hrest x tail rfl) asked tail
  | @blank x gap hx _ ih =>
    rw [List.cons_append, skipGapFrom, if_neg (by simp), if_pos hx, ih, List.length_cons]
    congr 1
    omega
  | @comment body gap hbody hend _ ih =>
    rw [List.cons_append, skipGapFrom, if_neg (by simp), if_neg (by decide), if_pos rfl,
      List.append_assoc, skipGapFrom_body hbody hend, ih, List.length_cons, List.length_append]
    congr 1
    omega

theorem next_of_gap {c : Cursor} (strict : Bool) (h : Gap [] c.pending) :
    c.next strict = (none, ⟨[], c.asked + c.pending.length⟩) := by
  have hskip := skipGapFrom_gap h (by simp) c.asked
  rw [List.append_nil] at hskip
  simp only [next, skipGap, hskip]

/-- The token behind a gap is that of the lexeme there, and the place behind it is that of the
    lexeme's end. -/
theorem next_of_lexeme {c : Cursor} (strict : Bool) {gap rest : List Char} {lexeme : Lexeme}
    (hpending : c.pending = gap ++ (lexeme.text ++ rest)) (hgap : Gap (lexeme.text ++ rest) gap)
    (hlexeme : lexeme.Munched rest) :
    c.next strict = (some (lexeme.token strict),
      ⟨rest, c.asked + gap.length + lexeme.text.length⟩) := by
  obtain ⟨x, tail, htext, hhead⟩ := hlexeme.head
  have hskip : c.skipGap = ⟨x :: (tail ++ rest), c.asked + gap.length⟩ := by
    rw [← List.cons_append, ← htext, skipGap, hpending]
    refine skipGapFrom_gap hgap (fun y ys heq => ?_) c.asked
    rw [htext] at heq
    exact (List.cons.inj heq).1 ▸ hhead
  cases lexeme with
  | word text =>
    obtain rfl : text = x :: tail := htext
    obtain ⟨hword, hbehind⟩ := hlexeme
    obtain ⟨hx, htail⟩ := Bool.and_eq_true_iff.mp hword
    have hall : ∀ y ∈ x :: tail, y.isAlphanum = true := by
      intro y hy
      rcases List.mem_cons.mp hy with rfl | hy
      · simp [Char.isAlphanum, hx]
      · exact List.all_eq_true.mp htail y hy
    obtain ⟨htake, hdrop⟩ := span_boundary hall hbehind
    rw [List.cons_append] at htake hdrop
    simp only [next, hskip, hx, ↓reduceIte, span_eq, htake, hdrop]
    rfl
  | literal text =>
    obtain rfl : text = x :: tail := htext
    obtain ⟨-, hall, hbehind⟩ := hlexeme
    have hx := hall x (by simp)
    obtain ⟨htake, hdrop⟩ := span_boundary hall hbehind
    rw [List.cons_append] at htake hdrop
    simp only [next, hskip, not_isAlpha_of_isNumeric hx, hx, Bool.false_eq_true, ↓reduceIte,
      span_eq, htake, hdrop]
    rfl
  | symbol s =>
    obtain ⟨rfl, rfl⟩ : s = x ∧ tail = [] := by simpa [Lexeme.text, eq_comm] using htext
    have hsymbol : IsSymbol s := hlexeme
    simp only [next, hskip, hsymbol.notAlpha, hsymbol.notNumeric, Bool.false_eq_true, ↓reduceIte,
      List.nil_append]
    rfl

/-! ## Asking again and again -/

/-- What the call of `next` with a number, counted from nought, yields, and the place behind it. -/
def call (strict : Bool) (c : Cursor) : Nat → Option Token × Cursor
  | 0 => c.next strict
  | i + 1 => call strict (c.next strict).2 i

/-- The end is met once and for all: asking again reads nothing. -/
theorem call_of_end (strict : Bool) (asked i : Nat) :
    call strict ⟨[], asked⟩ i = (none, ⟨[], asked⟩) := by
  induction i with
  | zero => rfl
  | succ i ih => exact ih

/-- The calls yield the tokens of the lexemes in order, and then the end. -/
theorem call_of_decomposes {c : Cursor} {gap : List Char} {pieces : List Piece}
    (h : Decomposes c.pending gap pieces) (strict : Bool) (i : Nat) :
    c.call strict i = match pieces[i]? with
      | some piece => (some (piece.lexeme.token strict),
          ⟨piece.gap ++ spell (pieces.drop (i + 1)),
            c.asked + (gap ++ spell (pieces.take i) ++ piece.lexeme.text).length⟩)
      | none => (none, ⟨[], c.asked + c.pending.length⟩) := by
  obtain ⟨hwhole, hgap, hpieces⟩ := h
  induction hpieces generalizing c gap i with
  | nil =>
    have hend : Gap [] c.pending := by
      rw [hwhole, spell, List.append_nil]
      exact hgap
    cases i with
    | zero => exact next_of_gap strict hend
    | succ i =>
      rw [call, next_of_gap strict hend]
      exact call_of_end strict _ i
  | @cons lexeme behind rest hlexeme hbehind hrest ih =>
    have hnext := next_of_lexeme strict hwhole hgap hlexeme
    cases i with
    | zero =>
      rw [call, hnext]
      simp [spell, Nat.add_assoc]
    | succ i =>
      rw [call, hnext, ih (c := ⟨behind ++ spell rest, _⟩) i rfl hbehind]
      simp only [List.getElem?_cons_succ, List.take_succ_cons, List.drop_succ_cons]
      cases rest[i]? with
      | none =>
        simp only [hwhole, spell, List.length_append]
        congr 2
        omega
      | some piece =>
        simp only [spell, List.length_append]
        congr 2
        omega

/-- A call that yields no token has used up what was pending. -/
theorem call_of_none {strict : Bool} {c : Cursor} {i : Nat} (h : (c.call strict i).1 = none) :
    c.call strict i = (none, ⟨[], c.asked + c.pending.length⟩) := by
  obtain ⟨gap, pieces, hdecomposes⟩ := exists_decomposes c.pending
  have hcall := call_of_decomposes hdecomposes strict i
  cases hpiece : pieces[i]? with
  | none => rw [hcall, hpiece]
  | some piece =>
    rw [hcall, hpiece] at h
    simp at h

/-- The readings from a place on are what the calls yield before the end. -/
theorem getElem?_readings (strict : Bool) (c : Cursor) (i : Nat) :
    (c.readings strict)[i]? = (c.call strict i).1.map fun t => ⟨t, (c.call strict i).2⟩ := by
  induction i generalizing c with
  | zero =>
    rcases hnext : c.next strict with ⟨t?, after⟩
    cases t? with
    | none =>
      rw [readings_of_none hnext, call, hnext]
      rfl
    | some t =>
      rw [readings_of_some hnext, call, hnext]
      rfl
  | succ i ih =>
    rcases hnext : c.next strict with ⟨t?, after⟩
    cases t? with
    | none =>
      have hend : c.next strict = (none, ⟨[], c.asked + c.pending.length⟩) :=
        call_of_none (i := 0) (by rw [call, hnext])
      rw [readings_of_none hnext, call, hend, call_of_end]
      rfl
    | some t =>
      rw [readings_of_some hnext, call, hnext, List.getElem?_cons_succ]
      exact ih after

end Cursor

/-! ## Whole texts -/

/-- The blank that a place before the first character holds belongs to the first gap. -/
theorem Decomposes.start {text gap : List Char} {pieces : List Piece}
    (h : Decomposes text gap pieces) :
    Decomposes (Cursor.start text).pending (' ' :: gap) pieces :=
  ⟨by rw [Cursor.start, h.whole, List.cons_append], .blank (by decide) h.gap, h.pieces⟩

theorem tokens_of_decomposes {text gap : List Char} {pieces : List Piece}
    (h : Decomposes text gap pieces) (strict : Bool) :
    tokens strict text = pieces.map fun piece => piece.lexeme.token strict := by
  refine List.ext_getElem? fun i => ?_
  have hcall := Cursor.call_of_decomposes h.start strict i
  rw [tokens, List.getElem?_map, scan, Cursor.getElem?_readings, hcall, List.getElem?_map]
  cases pieces[i]? <;> rfl

/-- The characters that have been read are those that were asked for, as far as there are any. -/
theorem pulledAfter_eq (strict : Bool) (text : List Char) (i : Nat) :
    pulledAfter text.length (scan strict text) (i + 1) =
      min ((Cursor.start text).call strict i).2.asked text.length := by
  rw [pulledAfter, scan, Cursor.getElem?_readings]
  cases ht : ((Cursor.start text).call strict i).1 with
  | some t => rfl
  | none =>
    rw [Cursor.call_of_none ht]
    simp [Cursor.start]

end Formulary

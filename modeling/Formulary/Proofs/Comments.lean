import Formulary.Proofs.Scanning
import Formulary.Session.Compile
import Mathlib.Data.List.TakeWhile

/-!
# Line breaks and comments are transparent

A line break ends whatever stands before it, be it a word, a run of digits and points or a comment,
so the tokens of a text are those of its lines. A comment ends what stands before it as well and
gives no token, so a text with a comment behind it has the tokens of the text. Both hold wherever
the cut falls, and a comment in front of a line break leaves the compiled program as it was.

* `tokens_append_comment`: a comment at the end of a text.
* `tokens_comment_line`: a comment at the end of a line within a text.
* `comments_transparent`: both, and what they mean for a program.
-/

namespace Formulary

/-- A comment behind a text adds no token, whatever the text ends in. -/
theorem tokens_append_comment (strict : Bool) (a : List Char) {c : List Char}
    (hc : ∀ x ∈ c, Cursor.endsLine x = false) :
    tokens strict (a ++ '#' :: c) = tokens strict a := by
  have hbody : c.dropWhile (!Cursor.endsLine ·) = [] := by
    rw [List.dropWhile_eq_nil_iff]
    intro x hx
    rw [hc x hx, Bool.not_false]
  induction a using textInduction with
  | nil => rw [List.nil_append, tokens_comment, hbody]
  | blank x a hx ih => rw [List.cons_append, tokens_blank hx, tokens_blank hx, ih]
  | comment a ih =>
    -- a comment takes a number sign, so the one behind it may be part of it
    rw [List.cons_append, tokens_comment, tokens_comment, List.dropWhile_append]
    split_ifs with hall
    · rw [List.dropWhile_cons_of_pos (by decide), hbody, List.isEmpty_iff.mp hall]
    · exact ih
  | word x a hx ih =>
    rw [List.cons_append, tokens_word hx, tokens_word hx, takeWhile_append_stop (by decide),
      dropWhile_append_stop (by decide), ih]
  | literal x a hx ih =>
    rw [List.cons_append, tokens_literal hx, tokens_literal hx, takeWhile_append_stop (by decide),
      dropWhile_append_stop (by decide), ih]
  | symbol x a hx ih => rw [List.cons_append, tokens_symbol hx, tokens_symbol hx, ih]

/-- A comment at the end of a line, and what stands before it on the line, leaves the tokens of the
    text as they are. -/
theorem tokens_comment_line (strict : Bool) (a b : List Char) {c : List Char}
    (hc : ∀ x ∈ c, Cursor.endsLine x = false) :
    tokens strict (a ++ '#' :: c ++ '\n' :: b) = tokens strict (a ++ '\n' :: b) := by
  rw [tokens_append_line, tokens_append_comment strict a hc, tokens_append_line]

/-- The program is compiled from the tokens of its text and nothing else. -/
theorem compile_congr {config : Config} {text text' : String}
    (h : tokens config.strictNumbers text.toList = tokens config.strictNumbers text'.toList) :
    compile config text = compile config text' := by
  have hstart : Session.start config text.toList = Session.start config text'.toList :=
    congrArg (Session.mk · _) h
  rw [compile, hstart]
  rfl

/-- In either reading of numbers, the tokens of two texts joined by a line break are those of the
    one followed by those of the other, and a comment behind a text adds none. So a comment at the
    end of a line can be left out of a program, wherever it stands. -/
theorem comments_transparent (config : Config) (a b c : String)
    (hc : ∀ x ∈ c.toList, x ≠ '\n' ∧ x ≠ '\r') :
    (∀ strict, tokens strict (a ++ "\n" ++ b).toList =
      tokens strict a.toList ++ tokens strict b.toList) ∧
    (∀ strict, tokens strict (a ++ "#" ++ c).toList = tokens strict a.toList) ∧
    compile config (a ++ "#" ++ c ++ "\n" ++ b) = compile config (a ++ "\n" ++ b) := by
  have hline : ∀ s t : String, (s ++ "\n" ++ t).toList = s.toList ++ '\n' :: t.toList := by simp
  have hsign : (a ++ "#" ++ c).toList = a.toList ++ '#' :: c.toList := by simp
  have hbody : ∀ x ∈ c.toList, Cursor.endsLine x = false := by
    intro x hx
    simp [Cursor.endsLine, hc x hx]
  refine ⟨?_, ?_, ?_⟩
  · intro strict
    rw [hline, tokens_append_line]
  · intro strict
    rw [hsign, tokens_append_comment strict _ hbody]
  · apply compile_congr
    rw [hline, hline, hsign, tokens_comment_line _ _ _ hbody]

/-- A comment behind a number: the digit on the next line does not belong to it, with the comment or
    without. -/
theorem comments_transparent_in_definition :
    (∀ x ∈ " f(x".toList, x ≠ '\n' ∧ x ≠ '\r') ∧
      compile .standard ("def f(x) x * 2.5" ++ "#" ++ " f(x" ++ "\n" ++ "0 + x; f(1)") =
        compile .standard ("def f(x) x * 2.5" ++ "\n" ++ "0 + x; f(1)") := by
  have hc : ∀ x ∈ " f(x".toList, x ≠ '\n' ∧ x ≠ '\r' := by simp
  exact ⟨hc, (comments_transparent .standard _ _ _ hc).2.2⟩

end Formulary

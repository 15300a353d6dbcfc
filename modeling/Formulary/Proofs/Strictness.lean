import Formulary.Proofs.Constructs
import Formulary.Proofs.Lexemes
import Formulary.Proofs.Resynchronisation
import Formulary.Session.Compile

/-!
# Strict reading differs on malformed literals only

A numeral has a digit and at most one point. A run of digits and points that is a numeral is the
same token in strict reading and in permissive reading. Any other run is refused in strict reading,
and is the value of its longest beginning that is a numeral in permissive reading. No construct has
a refused run in it, so a program that has no faults in strict reading has no such run, and is the
same program in permissive reading.

* `IsNumeral`, `LeadingValue`: numerals, and the value that a run begins with.
* `soundPart_eq_self_iff`, `leadingValue_soundPart`: what the reading of a run makes of it.
* `Lexeme.token_cases`: the tokens of a lexeme in both readings.
* `isSound_of_no_faults`: a session without faults has no refused number ahead.
* `strict_differs_on_malformed`: both for texts.
-/

namespace Formulary

/-! ## Numerals -/

/-- A run of digits and points with at least one digit and at most one point. -/
structure IsNumeral (run : List Char) : Prop where
  digit : run.any Char.isDigit = true
  points : run.count '.' ≤ 1

/-- The value of the longest beginning of a run that is a numeral; nought if there is none. -/
inductive LeadingValue (run : List Char) : Double → Prop
  | numeral {part : List Char} (hpart : part <+: run) (hnumeral : IsNumeral part)
      (hlongest : ∀ other, other <+: run → IsNumeral other → other.length ≤ part.length) :
      LeadingValue run (Decimal.ofLiteral part).toDouble
  | none (h : ∀ part, part <+: run → ¬ IsNumeral part) : LeadingValue run .zero

/-- A beginning of a text in which no point stands ends at the latest in front of the first
    point. -/
theorem prefix_takeWhile_of_count_eq_zero {part text : List Char} (h : part <+: text)
    (hpoints : part.count '.' = 0) : part <+: text.takeWhile (· ≠ '.') := by
  induction part generalizing text with
  | nil => exact List.nil_prefix
  | cons x part ih =>
    obtain ⟨rest, rfl⟩ := h
    have hx : x ≠ '.' := by
      rintro rfl
      simp at hpoints
    have hpart : part.count '.' = 0 := by simpa [List.count_cons, hx] using hpoints
    rw [List.cons_append, List.takeWhile_cons_of_pos (by simpa using hx)]
    exact (List.prefix_cons_inj x).mpr (ih (List.prefix_append part rest) hpart)

theorem count_takeWhile_point (text : List Char) : (text.takeWhile (· ≠ '.')).count '.' = 0 := by
  rw [List.count_eq_zero]
  intro hmem
  simpa using List.mem_takeWhile_imp hmem

/-- A text without a point is read whole, and one with a point up to the next one. -/
theorem upToSecondPoint_cases (text : List Char) :
    (upToSecondPoint text = text ∧ text.count '.' = 0) ∨
      ∃ rest, text = text.takeWhile (· ≠ '.') ++ '.' :: rest ∧
        upToSecondPoint text = text.takeWhile (· ≠ '.') ++ '.' :: rest.takeWhile (· ≠ '.') := by
  have hsplit := List.takeWhile_append_dropWhile (p := fun x : Char => decide (x ≠ '.')) (l := text)
  unfold upToSecondPoint
  simp only
  split
  · next hdrop =>
    rw [hdrop, List.append_nil] at hsplit
    exact .inl ⟨hsplit, hsplit ▸ count_takeWhile_point text⟩
  · next x rest hdrop =>
    obtain rfl : x = '.' := by simpa using head_dropWhile x rest hdrop
    rw [hdrop] at hsplit
    exact .inr ⟨rest, hsplit.symm, rfl⟩

theorem upToSecondPoint_isPrefix (text : List Char) : upToSecondPoint text <+: text := by
  rcases upToSecondPoint_cases text with ⟨hwhole, -⟩ | ⟨rest, hsplit, hpart⟩
  · exact ⟨[], by rw [hwhole, List.append_nil]⟩
  · rw [hpart]
    conv_rhs => rw [hsplit]
    rw [List.prefix_append_right_inj, List.prefix_cons_inj]
    exact List.takeWhile_prefix _

theorem count_upToSecondPoint (text : List Char) : (upToSecondPoint text).count '.' ≤ 1 := by
  rcases upToSecondPoint_cases text with ⟨hwhole, hcount⟩ | ⟨rest, -, hpart⟩
  · rw [hwhole, hcount]
    omega
  · rw [hpart, List.count_append, List.count_cons, count_takeWhile_point, count_takeWhile_point]
    simp

/-- A beginning with at most one point ends at the latest in front of the second point. -/
theorem isPrefix_upToSecondPoint_of_count {part text : List Char} (h : part <+: text)
    (hpoints : part.count '.' ≤ 1) : part <+: upToSecondPoint text := by
  rcases upToSecondPoint_cases text with ⟨hwhole, -⟩ | ⟨rest, hsplit, hpart⟩
  · rwa [hwhole]
  · rw [hpart]
    rw [hsplit] at h
    obtain ⟨behind, hbehind⟩ := h
    rcases List.append_eq_append_iff.mp hbehind with ⟨mid, hmid, -⟩ | ⟨mid, rfl, hmid⟩
    · rw [hmid, List.append_assoc]
      exact List.prefix_append _ _
    · rw [List.prefix_append_right_inj]
      cases mid with
      | nil => exact List.nil_prefix
      | cons x mid =>
        obtain ⟨rfl, rfl⟩ := List.cons.inj hmid
        rw [List.count_append, List.count_cons_self] at hpoints
        exact (List.prefix_cons_inj _).mpr
          (prefix_takeWhile_of_count_eq_zero (List.prefix_append mid behind) (by omega))

theorem soundPart_eq_self_iff {run : List Char} (hne : run ≠ []) :
    soundPart run = run ↔ IsNumeral run := by
  unfold soundPart
  simp only
  constructor
  · intro h
    split_ifs at h with hdigit
    · rw [h] at hdigit
      exact ⟨hdigit, h ▸ count_upToSecondPoint run⟩
    · exact (hne h.symm).elim
  · intro h
    have hwhole : upToSecondPoint run = run :=
      (upToSecondPoint_isPrefix run).eq_of_length_le
        (isPrefix_upToSecondPoint_of_count List.prefix_rfl h.points).length_le
    rw [hwhole, if_pos h.digit]

theorem toDouble_ofLiteral_nil : (Decimal.ofLiteral []).toDouble = .zero := by decide +kernel

/-- What is read of a run has the value that the run begins with. -/
theorem leadingValue_soundPart (run : List Char) :
    LeadingValue run (Decimal.ofLiteral (soundPart run)).toDouble := by
  unfold soundPart
  simp only
  split_ifs with hdigit
  · refine .numeral (upToSecondPoint_isPrefix run) ⟨hdigit, count_upToSecondPoint run⟩ ?_
    intro other hother hnumeral
    exact (isPrefix_upToSecondPoint_of_count hother hnumeral.points).length_le
  · rw [toDouble_ofLiteral_nil]
    refine .none fun part hpart hnumeral => hdigit ?_
    have hmem := (isPrefix_upToSecondPoint_of_count hpart hnumeral.points).subset
    obtain ⟨x, hx, hxdigit⟩ := List.any_eq_true.mp hnumeral.digit
    exact List.any_eq_true.mpr ⟨x, hmem hx, hxdigit⟩

/-! ## The tokens of both readings -/

/-- A lexeme is the same token in both readings, unless it is a run that is no numeral. -/
theorem Lexeme.token_cases {rest : List Char} {lexeme : Lexeme} (h : lexeme.Munched rest) :
    ((∀ run, lexeme = .literal run → IsNumeral run) ∧ lexeme.token true = lexeme.token false) ∨
      ∃ run v, lexeme = .literal run ∧ ¬ IsNumeral run ∧ LeadingValue run v ∧
        lexeme.token true = .malformed (String.ofList run) ∧ lexeme.token false = .number v := by
  cases lexeme with
  | word text => exact .inl ⟨by simp, rfl⟩
  | symbol c => exact .inl ⟨by simp, rfl⟩
  | literal run =>
    have hwhole := soundPart_eq_self_iff h.1
    by_cases hnumeral : IsNumeral run
    · left
      refine ⟨?_, ?_⟩
      · intro other hother
        exact Lexeme.literal.inj hother ▸ hnumeral
      · simp [Lexeme.token, Token.ofLiteral, hwhole.mpr hnumeral]
    · right
      refine ⟨run, _, rfl, hnumeral, leadingValue_soundPart run, ?_, ?_⟩
      · simp [Lexeme.token, Token.ofLiteral, mt hwhole.mp hnumeral]
      · simp [Lexeme.token, Token.ofLiteral]

theorem Pieces.munched {pieces : List Piece} (h : Pieces pieces) :
    ∀ piece ∈ pieces, ∃ rest, piece.lexeme.Munched rest := by
  induction h with
  | nil => simp
  | cons hlexeme _ _ ih =>
    intro piece hpiece
    rcases List.mem_cons.mp hpiece with rfl | hpiece
    · exact ⟨_, hlexeme⟩
    · exact ih piece hpiece

theorem tokens_eq_of_isSound {text : List Char} (h : ∀ t ∈ tokens true text, t.isSound = true) :
    tokens true text = tokens false text := by
  obtain ⟨gap, pieces, hdecomposes⟩ := exists_decomposes text
  rw [tokens_of_decomposes hdecomposes] at h ⊢
  rw [tokens_of_decomposes hdecomposes]
  refine List.map_congr_left fun piece hpiece => ?_
  obtain ⟨rest, hmunched⟩ := hdecomposes.pieces.munched piece hpiece
  rcases Lexeme.token_cases hmunched with ⟨-, hsame⟩ | ⟨run, v, -, -, -, hmalformed, -⟩
  · exact hsame
  · have hsound := h _ (List.mem_map_of_mem hpiece)
    rw [hmalformed] at hsound
    simp [Token.isSound] at hsound

/-! ## Programs without faults -/

/-- A construct that is read has no refused number in it, and a fault is reported: a session that
    reports no fault has no refused number ahead. -/
theorem isSound_of_no_faults {table : PrecedenceTable} {s : Session}
    (h : ∀ fault? ∈ (s.observe table fun event _ => event.error?).1, fault? = none) :
    ∀ t ∈ s.tokens, t.isSound = true := by
  induction hn : s.tokens.length using Nat.strongRecOn generalizing s with
  | ind n ih =>
    obtain ⟨tokens, code⟩ := s
    by_cases hne : tokens = []
    · simp [hne]
    · have hstep := Session.step_eq_respond table code hne
      rw [Session.observe_of_some _ hstep] at h
      rcases hread : readConstruct table tokens with ⟨result, rest⟩
      rw [hread] at h hstep
      cases result with
      | error e => simpa [respond, Event.error?] using h _ List.mem_cons_self
      | ok k =>
        obtain ⟨c, rfl, hphrase⟩ := readConstruct_sound hne hread
        have hrest := ih _ (hn ▸ Session.step_length_lt hstep)
          (fun fault? hmem => h fault? (List.mem_cons_of_mem _ hmem)) rfl
        intro t ht
        rcases List.mem_append.mp ht with ht | ht
        · exact hphrase.isSound t ht
        · exact hrest t ht

/-- A text has equally many tokens in both readings. At each place they are the same token, if the
    lexeme there is no run of digits and points or one that is a numeral; otherwise the run is
    refused in strict reading, and has the value of its longest beginning that is a numeral in
    permissive reading. So a program without faults in strict reading compiles to the same module,
    without faults, in permissive reading. -/
theorem strict_differs_on_malformed (config : Config) (text : String) :
    let strict := tokens true text.toList
    let permissive := tokens false text.toList
    (∃ (gap : List Char) (pieces : List Piece), Decomposes text.toList gap pieces ∧
      strict.length = pieces.length ∧ permissive.length = pieces.length ∧
      ∀ (i : Nat) (piece : Piece), pieces[i]? = some piece →
        ((∀ run, piece.lexeme = .literal run → IsNumeral run) ∧ strict[i]? = permissive[i]?) ∨
          ∃ run v, piece.lexeme = .literal run ∧ ¬ IsNumeral run ∧ LeadingValue run v ∧
            strict[i]? = some (.malformed (String.ofList run)) ∧
            permissive[i]? = some (.number v)) ∧
    ((compile { config with strictNumbers := true } text).errors = [] →
      compile { config with strictNumbers := false } text =
        compile { config with strictNumbers := true } text) := by
  intro strict permissive
  constructor
  · obtain ⟨gap, pieces, h⟩ := exists_decomposes text.toList
    have hstrict : strict = pieces.map fun piece => piece.lexeme.token true :=
      tokens_of_decomposes h true
    have hpermissive : permissive = pieces.map fun piece => piece.lexeme.token false :=
      tokens_of_decomposes h false
    refine ⟨gap, pieces, h, by rw [hstrict, List.length_map], by rw [hpermissive, List.length_map],
      ?_⟩
    intro i piece hpiece
    obtain ⟨rest, hmunched⟩ := h.pieces.munched piece (List.mem_of_getElem? hpiece)
    simp only [hstrict, hpermissive, List.getElem?_map, hpiece, Option.map_some, Option.some.injEq]
    exact Lexeme.token_cases hmunched
  · intro hnone
    have hsame : strict = permissive :=
      tokens_eq_of_isSound (isSound_of_no_faults (List.filterMap_eq_nil_iff.mp hnone))
    have hstart : Session.start { config with strictNumbers := false } text.toList =
        Session.start { config with strictNumbers := true } text.toList :=
      congrArg (Session.mk · _) hsame.symm
    rw [compile, hstart]
    rfl

theorem strict_differs_on_malformed_definition :
    let text := "def half(x) x * .5;\nhalf(2.25) # 1.2.3"
    (compile { Config.standard with strictNumbers := true } text).errors = [] ∧
      compile { Config.standard with strictNumbers := false } text =
        compile { Config.standard with strictNumbers := true } text := by
  intro text
  have hnone : (compile { Config.standard with strictNumbers := true } text).errors = [] := by
    decide +kernel
  exact ⟨hnone, (strict_differs_on_malformed .standard text).2 hnone⟩

end Formulary

import Formulary.Proofs.Separation

/-!
# The two forms of a constant

A constant is written as `[-]d.dddddde±dd[d]` or as `0x` with sixteen hexadecimal digits. Both forms
are described here by themselves, without the functions that write them. That the seven digits are
seven rests on the exponent of the first digit: a number is less than the next power of ten, and
rounding can reach that power but not pass it. That two or three digits are enough for an exponent
rests on the size of the largest finite number.

Results:
* `ScientificForm`, `PatternForm`: the two forms; `ScientificForm.not_patternForm`.
* `ScientificForm.ofScientific?`: a text reads as the double nearest to the decimal that it writes.
* `Double.overPower_lt`, `Double.sevenDigits_lt`: a significand has at most seven digits.
* `Double.units_lt`, `Double.natAbs_sevenDigits_lt`: an exponent has at most three digits.
* `Double.scientificForm_scientificText`, `Double.patternForm_patternText`: what is written has the
  form.
* `constantText_exact`: each constant has one of the forms and reads back as its bits.
-/

namespace Formulary

/-! ## The forms -/

/-- The exponent that digits with a sign in front write. -/
def writtenExponent (sign : Char) (digits : List Char) : Int :=
  if sign = '-' then -(Nat.ofDigitChars 10 digits 0 : Int) else Nat.ofDigitChars 10 digits 0

/-- `[-]d.dddddde±dd[d]`, with a minus sign in front exactly if it is asked for, and the decimal
    that stands behind the sign. -/
inductive ScientificForm (negative : Bool) : Decimal → List Char → Prop
  | mk {whole sign : Char} {fraction exponent : List Char} (hwhole : whole.isDigit = true)
      (hfraction : ∀ c ∈ fraction, c.isDigit = true) (hplaces : fraction.length = 6)
      (hsign : sign = '+' ∨ sign = '-') (hexponent : ∀ c ∈ exponent, c.isDigit = true)
      (hsize : exponent.length = 2 ∨ exponent.length = 3) :
      ScientificForm negative
        ⟨Nat.ofDigitChars 10 (whole :: fraction) 0, writtenExponent sign exponent - 6⟩
        ((if negative then ['-'] else []) ++
          whole :: '.' :: (fraction ++ 'e' :: sign :: exponent))

/-- A decimal digit or a letter from `A` to `F`. -/
def isUpperHex (c : Char) : Bool := c.isDigit || decide ('A' ≤ c) && decide (c ≤ 'F')

/-- The value of a hexadecimal digit. -/
def hexValue (c : Char) : Nat :=
  if c.isDigit then c.toNat - '0'.toNat else c.toNat - 'A'.toNat + 10

/-- The number that hexadecimal digits write. -/
def ofHexDigits (digits : List Char) : Nat := digits.foldl (fun n c => 16 * n + hexValue c) 0

/-- `0x` and sixteen upper-case hexadecimal digits that write the bits of a number. -/
inductive PatternForm (x : Double) : List Char → Prop
  | mk {digits : List Char} (hdigits : ∀ c ∈ digits, isUpperHex c = true)
      (hlength : digits.length = 16) (hvalue : ofHexDigits digits = x.bits.toNat) :
      PatternForm x ('0' :: 'x' :: digits)

/-- No text has both forms: in one of them the second character is a point or the first a minus
    sign. -/
theorem ScientificForm.not_patternForm {negative : Bool} {value : Decimal} {text : List Char}
    (h : ScientificForm negative value text) (x : Double) : ¬ PatternForm x text := by
  intro hpattern
  obtain ⟨digits, htext⟩ : ∃ digits, text = '0' :: 'x' :: digits := by
    cases hpattern with
    | mk hdigits hlength hvalue => exact ⟨_, rfl⟩
  cases h with
  | mk hwhole hfraction hplaces hsign hexponent hsize =>
    cases negative with
    | true => exact absurd (List.cons.inj htext).1 (by decide)
    | false => exact absurd (List.cons.inj (List.cons.inj htext).2).1 (by decide)

/-! ## Reading -/

namespace Double

theorem isDigits_of_forall {digits : List Char} (h : ∀ c ∈ digits, c.isDigit = true)
    (hne : digits ≠ []) : isDigits digits = true := by
  simpa [isDigits, hne] using h

theorem readExponent?_eq {sign : Char} {digits : List Char} (hsign : sign = '+' ∨ sign = '-')
    (h : ∀ c ∈ digits, c.isDigit = true) (hne : digits ≠ []) :
    readExponent? (sign :: digits) = some (writtenExponent sign digits) := by
  have hdigits := isDigits_of_forall h hne
  rcases hsign with rfl | rfl
  · rw [readExponent?, if_pos hdigits]
    rfl
  · rw [readExponent?, if_pos hdigits]
    rfl

/-- A mantissa of digits and a point ends at the exponent mark. -/
theorem span_mantissa {whole : Char} {fraction : List Char} (hwhole : whole.isDigit = true)
    (hfraction : ∀ c ∈ fraction, c.isDigit = true) (rest : List Char) :
    (whole :: '.' :: (fraction ++ 'e' :: rest)).takeWhile (· ≠ 'e') = whole :: '.' :: fraction ∧
      (whole :: '.' :: (fraction ++ 'e' :: rest)).dropWhile (· ≠ 'e') = 'e' :: rest := by
  have hdigit : ∀ {c : Char}, c.isDigit = true → decide (c ≠ 'e') = true := by
    intro c hc
    rw [decide_eq_true_eq]
    rintro rfl
    exact absurd hc (by decide)
  have hmantissa : ∀ c ∈ whole :: '.' :: fraction, decide (c ≠ 'e') = true := by
    rw [List.forall_mem_cons, List.forall_mem_cons]
    exact ⟨hdigit hwhole, by decide, fun c hc => hdigit (hfraction c hc)⟩
  have hmark : ∀ x tail, 'e' :: rest = x :: tail → decide (x ≠ 'e') = false := by
    intro x tail h
    rw [← (List.cons.inj h).1]
    decide
  exact span_boundary hmantissa hmark

/-- The digits before and behind the point count alike, and those behind it lower the exponent. -/
theorem readMagnitude?_eq {whole sign : Char} {fraction exponent : List Char}
    (hwhole : whole.isDigit = true) (hfraction : ∀ c ∈ fraction, c.isDigit = true)
    (hplaces : fraction ≠ []) (hsign : sign = '+' ∨ sign = '-')
    (hexponent : ∀ c ∈ exponent, c.isDigit = true) (hsize : exponent ≠ []) :
    readMagnitude? (whole :: '.' :: (fraction ++ 'e' :: sign :: exponent)) =
      some (Decimal.toDouble ⟨Nat.ofDigitChars 10 (whole :: fraction) 0,
        writtenExponent sign exponent - fraction.length⟩).magnitude := by
  have hone : ∀ c ∈ [whole], c.isDigit = true := by simpa using hwhole
  obtain ⟨htake, hdrop⟩ := span_mantissa hwhole hfraction (sign :: exponent)
  obtain ⟨hbefore, hbehind⟩ := takeWhile_digits hone fraction
  rw [List.singleton_append] at hbefore hbehind
  have hboth : (isDigits [whole] && isDigits fraction) = true := by
    rw [isDigits_of_forall hone (by simp), isDigits_of_forall hfraction hplaces]
    rfl
  unfold readMagnitude? Decimal.ofLiteral
  simp only [htake, hdrop, List.drop_one, List.tail_cons, readExponent?_eq hsign hexponent hsize,
    Option.bind_eq_bind, Option.bind_some, hbefore, hbehind]
  rw [if_pos hboth, List.singleton_append, Int.add_comm, ← Int.sub_eq_add_neg]

end Double

/-- A text with an exponent reads as the double nearest to the decimal that it writes, with the
    sign that stands in front. -/
theorem ScientificForm.ofScientific? {negative : Bool} {value : Decimal} {text : List Char}
    (h : ScientificForm negative value text) :
    Double.ofScientific? text = some (.ofMagnitude negative value.toDouble.magnitude) := by
  cases h with
  | @mk whole sign fraction exponent hwhole hfraction hplaces hsign hexponent hsize =>
    have hread := Double.readMagnitude?_eq hwhole hfraction (by rintro rfl; simp at hplaces) hsign
      hexponent (by rintro rfl; simp at hsize)
    rw [hplaces] at hread
    cases negative with
    | true =>
      show (Double.readMagnitude? (whole :: '.' :: _)).map (Double.ofMagnitude true) = _
      rw [hread]
      rfl
    | false =>
      have hminus : whole ≠ '-' := by
        rintro rfl
        exact absurd hwhole (by decide)
      show Double.ofScientific? (whole :: '.' :: _) = _
      rw [Double.ofScientific?.eq_2 _ fun tail h => hminus (List.cons.inj h).1, hread]
      rfl

/-! ## Bit patterns -/

namespace Double

theorem isUpperHex_hexDigit : ∀ n < 16, isUpperHex (hexDigit n) = true := by decide

theorem hexValue_hexDigit : ∀ n < 16, hexValue (hexDigit n) = n := by decide

theorem length_hexDigits (count n : Nat) : (hexDigits count n).length = count := by
  induction count generalizing n with
  | zero => rfl
  | succ count ih => rw [hexDigits, List.length_append, ih, List.length_singleton]

theorem isUpperHex_of_mem_hexDigits {count n : Nat} {c : Char} (h : c ∈ hexDigits count n) :
    isUpperHex c = true := by
  induction count generalizing n with
  | zero => simp [hexDigits] at h
  | succ count ih =>
    rw [hexDigits, List.mem_append, List.mem_singleton] at h
    rcases h with h | rfl
    · exact ih h
    · exact isUpperHex_hexDigit _ (Nat.mod_lt n (by omega))

theorem ofHexDigits_hexDigits (count n : Nat) :
    ofHexDigits (hexDigits count n) = n % Nat.pow 16 count := by
  induction count generalizing n with
  | zero =>
    show 0 = n % 1
    omega
  | succ count ih =>
    have hpow : Nat.pow 16 (count + 1) = 16 * Nat.pow 16 count := Nat.pow_succ'
    have hinit := ih (n / 16)
    unfold ofHexDigits at hinit ⊢
    rw [hexDigits, List.foldl_append, hinit, List.foldl_cons, List.foldl_nil,
      hexValue_hexDigit _ (Nat.mod_lt n (by omega)), hpow, Nat.mod_mul]
    omega

theorem patternForm_patternText (x : Double) : PatternForm x x.patternText := by
  refine .mk (fun c => isUpperHex_of_mem_hexDigits) (length_hexDigits 16 _) ?_
  rw [ofHexDigits_hexDigits]
  exact Nat.mod_eq_of_lt x.bits.toNat_lt

end Double

/-! ## Significands -/

theorem powerOfTen_pos (n : Nat) : 0 < powerOfTen n := Nat.pow_pos (by decide)

theorem powerOfTen_add (m n : Nat) : powerOfTen (m + n) = powerOfTen m * powerOfTen n :=
  Nat.pow_add 10 m n

theorem powerOfTwo_le {m n : Nat} (h : m ≤ n) : powerOfTwo m ≤ powerOfTwo n :=
  Nat.pow_le_pow_right (by decide) h

/-- `2^2n` is `4^n`, which is at most `10^n`. -/
theorem powerOfTwo_le_powerOfTen (n : Nat) : powerOfTwo (2 * n) ≤ powerOfTen n := by
  have hfour : powerOfTwo (2 * n) = Nat.pow (Nat.pow 2 2) n := Nat.pow_mul 2 2 n
  rw [hfour]
  exact Nat.pow_le_pow_left (by decide) n

/-- Rounding can reach the next integer, but not pass it. -/
theorem roundHalfEven_le {n d k : Nat} (h : n < k * d) : roundHalfEven n d ≤ k := by
  have hquotient : n / d < k := Nat.div_lt_of_lt_mul (by rwa [Nat.mul_comm])
  unfold roundHalfEven
  simp only
  split_ifs <;> omega

namespace Double

theorem unitsInOne_pos : 0 < unitsInOne := powerOfTwo_pos 1074

/-- How many digits a number of units has when it is lifted above one. -/
def liftedDigits (units : Nat) : Nat :=
  (Nat.toDigits 10 (units * powerOfTen liftExponent / unitsInOne)).length

theorem leadingExponent_eq (units : Nat) :
    leadingExponent units = (liftedDigits units : Int) - 1 - liftExponent := rfl

theorem liftedDigits_pos (units : Nat) : 0 < liftedDigits units := Nat.length_toDigits_pos

/-- The lifted number is compared with the powers of ten by its digits. -/
theorem liftedDigits_le_iff (units : Nat) {k : Nat} (hk : 0 < k) :
    liftedDigits units ≤ k ↔ units * powerOfTen liftExponent < powerOfTen k * unitsInOne := by
  rw [← Nat.div_lt_iff_lt_mul unitsInOne_pos]
  exact Nat.length_toDigits_le_iff (by decide) hk

/-- Measured in the last of seven digits, a number is less than the next power of ten. -/
theorem overPower_lt (units : Nat) :
    (overPower units (leadingExponent units - constantPlaces)).1 <
      powerOfTen (constantPlaces + 1) *
        (overPower units (leadingExponent units - constantPlaces)).2 := by
  have hlt := (liftedDigits_le_iff units (liftedDigits_pos units)).mp (Nat.le_refl _)
  have hfirst := leadingExponent_eq units
  generalize liftedDigits units = length at hlt hfirst
  generalize hk : leadingExponent units - constantPlaces = k
  have hbalance : length + (-k).toNat = liftExponent + (constantPlaces + 1 + k.toNat) := by omega
  have hpowers : powerOfTen length * powerOfTen (-k).toNat =
      powerOfTen liftExponent * (powerOfTen (constantPlaces + 1) * powerOfTen k.toNat) := by
    rw [← powerOfTen_add, hbalance, powerOfTen_add, powerOfTen_add]
  show units * powerOfTen (-k).toNat <
    powerOfTen (constantPlaces + 1) * (unitsInOne * powerOfTen k.toNat)
  -- the numbers themselves play no part, and are too large to be computed here
  generalize unitsInOne = one at hlt ⊢
  generalize powerOfTen liftExponent = lift at hlt hpowers
  apply Nat.lt_of_mul_lt_mul_left (a := lift)
  calc lift * (units * powerOfTen (-k).toNat)
      = units * lift * powerOfTen (-k).toNat := by ac_rfl
    _ < powerOfTen length * one * powerOfTen (-k).toNat :=
        Nat.mul_lt_mul_of_pos_right hlt (powerOfTen_pos _)
    _ = powerOfTen length * powerOfTen (-k).toNat * one := Nat.mul_right_comm _ _ _
    _ = lift * (powerOfTen (constantPlaces + 1) * (one * powerOfTen k.toNat)) := by
        rw [hpowers]
        ac_rfl

/-- Rounding leaves seven digits, or it carries into the next power of ten, which is written with
    the next exponent. -/
theorem sevenDigits_cases (units : Nat) :
    sevenDigits units = (powerOfTen constantPlaces, leadingExponent units + 1) ∨
      ∃ rounded, sevenDigits units = (rounded, leadingExponent units) ∧
        rounded < powerOfTen (constantPlaces + 1) := by
  have hle := roundHalfEven_le (overPower_lt units)
  unfold sevenDigits
  simp only
  generalize overPower units (leadingExponent units - constantPlaces) = quotient at hle ⊢
  split_ifs with hcarry
  · exact .inl rfl
  · exact .inr ⟨_, rfl, Nat.lt_of_le_of_ne hle hcarry⟩

theorem sevenDigits_lt (units : Nat) :
    (sevenDigits units).1 < powerOfTen (constantPlaces + 1) := by
  rcases sevenDigits_cases units with hcarry | ⟨rounded, hdigits, hlt⟩
  · rw [hcarry, powerOfTen_succ]
    have hpos := powerOfTen_pos constantPlaces
    show powerOfTen constantPlaces < powerOfTen constantPlaces * 10
    omega
  · rw [hdigits]
    exact hlt

/-! ## Exponents -/

theorem units_lt {x : Double} (h : x.isFinite = true) :
    x.units < powerOfTwo 1024 * unitsInOne := by
  have hlt : x.magnitude < infinityMagnitude := of_decide_eq_true h
  have hbits : leadingBit = 4503599627370496 := rfl
  have hinfinity : infinityMagnitude = leadingBit * 2047 := rfl
  have hexponent : x.magnitude / leadingBit < 2047 := Nat.div_lt_of_lt_mul (hinfinity ▸ hlt)
  have hfraction := Nat.mod_lt x.magnitude (show leadingBit > 0 by omega)
  have htotal : powerOfTwo 1024 * unitsInOne = powerOfTwo 53 * powerOfTwo 2045 := by
    rw [unitsInOne, ← powerOfTwo_add, ← powerOfTwo_add]
  have h53 : powerOfTwo 53 = 9007199254740992 := rfl
  rw [htotal]
  unfold units unitsOfMagnitude
  simp only
  split_ifs with hsubnormal
  · have hsplit := Nat.div_add_mod x.magnitude leadingBit
    rw [hsubnormal] at hsplit
    have hpos := powerOfTwo_pos 2045
    calc x.magnitude < powerOfTwo 53 * 1 := by omega
      _ ≤ powerOfTwo 53 * powerOfTwo 2045 := Nat.mul_le_mul_left _ hpos
  · have hshift : powerOfTwo (x.magnitude / leadingBit - 1) ≤ powerOfTwo 2045 :=
      powerOfTwo_le (by omega)
    calc (leadingBit + x.magnitude % leadingBit) * powerOfTwo (x.magnitude / leadingBit - 1)
        ≤ (leadingBit + x.magnitude % leadingBit) * powerOfTwo 2045 := Nat.mul_le_mul_left _ hshift
      _ < powerOfTwo 53 * powerOfTwo 2045 :=
          Nat.mul_lt_mul_of_pos_right (by omega) (powerOfTwo_pos 2045)

theorem natAbs_sevenDigits_lt {units : Nat} (h : units < powerOfTwo 1024 * unitsInOne) :
    (sevenDigits units).2.natAbs < 1000 := by
  have hpos := liftedDigits_pos units
  have hfirst := leadingExponent_eq units
  have hlift : liftExponent = 400 := rfl
  have htwo : powerOfTwo 1024 ≤ powerOfTen 512 := powerOfTwo_le_powerOfTen 512
  have hlength : liftedDigits units ≤ 512 + liftExponent := by
    rw [liftedDigits_le_iff units (by omega)]
    calc units * powerOfTen liftExponent
        < powerOfTwo 1024 * unitsInOne * powerOfTen liftExponent :=
          Nat.mul_lt_mul_of_pos_right h (powerOfTen_pos _)
      _ ≤ powerOfTen 512 * unitsInOne * powerOfTen liftExponent :=
          Nat.mul_le_mul_right _ (Nat.mul_le_mul_right _ htwo)
      _ = powerOfTen (512 + liftExponent) * unitsInOne := by
          rw [powerOfTen_add, Nat.mul_right_comm]
  rcases sevenDigits_cases units with hcarry | ⟨rounded, hdigits, -⟩
  · rw [hcarry]
    show (leadingExponent units + 1).natAbs < 1000
    omega
  · rw [hdigits]
    show (leadingExponent units).natAbs < 1000
    omega

theorem exponentText_eq {exponent : Int} (h : exponent.natAbs < 1000) :
    ∃ sign digits, exponentText exponent = sign :: digits ∧ (sign = '+' ∨ sign = '-') ∧
      (∀ c ∈ digits, c.isDigit = true) ∧ (digits.length = 2 ∨ digits.length = 3) := by
  refine ⟨_, _, rfl, ?_, ?_, ?_⟩
  · split_ifs
    · exact .inr rfl
    · exact .inl rfl
  · split_ifs
    · exact fun c => isDigit_of_mem_fixedDigits
    · exact Decimal.isDigit_of_mem_toDigits
  · split_ifs with hsmall
    · exact .inl (length_fixedDigits 2 _)
    · have hthree := (Nat.length_toDigits_le_iff (by decide : 1 < 10) (by decide : 0 < 3)).mpr
        (show exponent.natAbs < 10 ^ 3 by omega)
      have htwo := mt (Nat.length_toDigits_le_iff (by decide : 1 < 10) (by decide : 0 < 2)).mp
        (show ¬ exponent.natAbs < 10 ^ 2 by omega)
      omega

/-- What is written of a finite number: at most seven digits, and an exponent of at most three. -/
theorem exists_parts {x : Double} (h : x.isFinite = true) : ∃ significand exponent,
    (if x.units = 0 then (0, 0) else sevenDigits x.units) = (significand, exponent) ∧
      significand < powerOfTen (constantPlaces + 1) ∧ exponent.natAbs < 1000 := by
  by_cases hzero : x.units = 0
  · exact ⟨0, 0, if_pos hzero, powerOfTen_pos _, by decide⟩
  · exact ⟨_, _, (if_neg hzero).trans Prod.mk.eta.symm, sevenDigits_lt _,
      natAbs_sevenDigits_lt (units_lt h)⟩

theorem scientificForm_scientificText {x : Double} (h : x.isFinite = true) :
    ∃ value, ScientificForm x.isNegative value x.scientificText := by
  obtain ⟨significand, exponent, hparts, hsignificand, hexponent⟩ := exists_parts h
  obtain ⟨sign, digits, htext, hsign, hdigits, hsize⟩ := exponentText_eq hexponent
  have hwhole : significand / powerOfTen constantPlaces < 10 := Nat.div_lt_of_lt_mul hsignificand
  have hform := @ScientificForm.mk x.isNegative _ _ _ _ (isDigit_digitChar hwhole)
    (fun c => isDigit_of_mem_fixedDigits) (length_fixedDigits constantPlaces significand) hsign
    hdigits hsize
  unfold scientificText
  rw [hparts]
  simp only [htext]
  split_ifs at hform ⊢
  · exact ⟨_, hform⟩
  · exact ⟨_, hform⟩

/-! ## Constants -/

/-- The text with an exponent is chosen exactly if it is that of a finite number and reads back. -/
theorem constantText_cases (x : Double) :
    (x.isFinite = true ∧ ofScientific? x.scientificText = some x) ∧
        x.constantText.toList = x.scientificText ∨
      ¬ (x.isFinite = true ∧ ofScientific? x.scientificText = some x) ∧
        x.constantText.toList = x.patternText := by
  unfold constantText
  simp only [String.toList_ofList, Bool.and_eq_true, decide_eq_true_eq]
  split_ifs with hreads
  · exact .inl ⟨hreads, rfl⟩
  · exact .inr ⟨hreads, rfl⟩

end Double

/-- A constant is written with seven significant digits and an exponent, or as its bits. The first
    is the case exactly if the number is finite and that text reads back as the number, so
    infinities and NaNs are written as their bits. Then the double nearest to the decimal that is
    written is exactly the number, and reading yields it. No text has both forms, and numbers with
    the same text have the same bits. -/
theorem constantText_exact (x : Double) :
    ((∃ value, ScientificForm x.isNegative value x.constantText.toList ∧
        .ofMagnitude x.isNegative value.toDouble.magnitude = x ∧
          Double.ofScientific? x.constantText.toList = some x) ∨
        PatternForm x x.constantText.toList) ∧
      ((∃ value, ScientificForm x.isNegative value x.constantText.toList) ↔
        x.isFinite = true ∧ Double.ofScientific? x.scientificText = some x) ∧
      (x.isFinite = false → PatternForm x x.constantText.toList) ∧
      (∀ negative value text, ScientificForm negative value text → ∀ y, ¬ PatternForm y text) ∧
      ∀ y : Double, x.constantText = y.constantText → x = y := by
  refine ⟨?_, ?_, ?_, fun _ _ _ h y => h.not_patternForm y, fun y => Double.constantText_injective⟩
  · rcases x.constantText_cases with ⟨⟨hfinite, hreads⟩, htext⟩ | ⟨-, htext⟩
    · rw [htext]
      obtain ⟨value, hform⟩ := Double.scientificForm_scientificText hfinite
      have hnearest := Option.some.inj (hform.ofScientific?.symm.trans hreads)
      exact .inl ⟨value, hform, hnearest, hreads⟩
    · rw [htext]
      exact .inr x.patternForm_patternText
  · rcases x.constantText_cases with ⟨hreads, htext⟩ | ⟨hnot, htext⟩
    · rw [htext]
      exact iff_of_true (Double.scientificForm_scientificText hreads.1) hreads
    · rw [htext]
      exact iff_of_false (fun ⟨_, h⟩ => h.not_patternForm x x.patternForm_patternText) hnot
  · intro hinfinite
    rcases x.constantText_cases with ⟨⟨hfinite, -⟩, -⟩ | ⟨-, htext⟩
    · rw [hinfinite] at hfinite
      exact absurd hfinite (by decide)
    · rw [htext]
      exact x.patternForm_patternText

end Formulary

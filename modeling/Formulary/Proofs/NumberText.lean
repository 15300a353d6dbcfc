import Formulary.Lexical.Token
import Formulary.Numeric.Shortest
import Mathlib.Algebra.Order.Ring.Nat
import Mathlib.Data.List.TakeWhile

/-!
# The text of a number reads back as the number

A finite double that is not negative is written as digits with at most one point. Whichever decimal
the search for the fewest digits finds, reading its text and rounding gives the same double: a
decimal found by the search has been tried, and the exact value behind the search is a whole number
of units, which rounding does not change.

* `Double.ofRatio_mul_right`: only the quotient matters for rounding.
* `nearestMagnitude_units`: a whole number of units that a double has is not changed by rounding.
* `Decimal.toDouble_trim`: zeros at the end of a significand do not matter.
* `Decimal.toDouble_ofLiteral_toPositional`: the text of a decimal reads back as its double.
* `Double.toText_isLiteral`: the text of a double reads back as the double.
-/

namespace Formulary

/-! ## Powers -/

theorem powerOfTwo_pos (n : Nat) : 0 < powerOfTwo n := Nat.pow_pos (by decide)

theorem powerOfTwo_add (m n : Nat) : powerOfTwo (m + n) = powerOfTwo m * powerOfTwo n :=
  Nat.pow_add 2 m n

theorem powerOfTen_succ (n : Nat) : powerOfTen (n + 1) = powerOfTen n * 10 := Nat.pow_succ 10 n

/-! ## Rounding a quotient -/

/-- Only the quotient matters for rounding to an integer. -/
theorem roundHalfEven_mul_right (n d : Nat) {k : Nat} (hk : 0 < k) :
    roundHalfEven (n * k) (d * k) = roundHalfEven n d := by
  have hlt : ∀ a b : Nat, a * k < b * k ↔ a < b := fun a b => Nat.mul_lt_mul_right hk
  have hmod : 2 * (n * k % (d * k)) = 2 * (n % d) * k := by
    rw [Nat.mul_mod_mul_right, Nat.mul_assoc]
  unfold roundHalfEven
  simp only [Nat.mul_div_mul_right _ _ hk, hmod, hlt]

theorem roundHalfEven_of_mul (n : Nat) {d : Nat} (hd : 0 < d) : roundHalfEven (n * d) d = n := by
  unfold roundHalfEven
  simp only [Nat.mul_mod_left, Nat.mul_div_cancel n hd]
  rw [if_pos (by omega)]

theorem nearestMagnitude_mul_right (n d : Nat) {k : Nat} (hk : 0 < k) :
    nearestMagnitude (n * k) (d * k) = nearestMagnitude n d := by
  unfold nearestMagnitude excessBits
  simp only [Nat.mul_div_mul_right _ _ hk, Nat.mul_right_comm d k,
    roundHalfEven_mul_right _ _ hk]

/-- A power of ten is a power of five times a power of two, so units that have been scaled by both
    are the same quotient. -/
theorem nearestMagnitude_scaled (u n : Nat) :
    nearestMagnitude (u * Nat.pow 5 n * powerOfTwo n) (powerOfTen n) = nearestMagnitude u 1 := by
  have hten : powerOfTen n = 1 * (Nat.pow 5 n * powerOfTwo n) := by
    rw [Nat.one_mul]
    exact Nat.mul_pow 5 2 n
  have hpos : 0 < Nat.pow 5 n * powerOfTwo n :=
    Nat.mul_pos (Nat.pow_pos (by decide)) (powerOfTwo_pos n)
  rw [hten, Nat.mul_assoc, nearestMagnitude_mul_right _ _ hpos]

theorem Double.ofRatio_mul_right (n d : Nat) {k : Nat} (hk : 0 < k) :
    Double.ofRatio (n * k) (d * k) = Double.ofRatio n d := by
  unfold ofRatio
  rw [Nat.mul_right_comm, nearestMagnitude_mul_right _ _ hk]

/-- A number of units with at most 53 bits is its own magnitude. -/
theorem nearestMagnitude_of_lt {u : Nat} (h : u < 2 * Double.leadingBit) :
    nearestMagnitude u 1 = u := by
  have hbits : Double.leadingBit = 4503599627370496 := rfl
  have hlog : u.log2 ≤ 52 := by
    by_cases hu : u = 0
    · rw [hu, Nat.log2_zero]
      omega
    · have := (Nat.log2_lt hu).mpr (show u < 2 ^ 53 by omega)
      omega
  have hshift : excessBits u 1 = 0 := by
    unfold excessBits
    rw [Nat.div_one]
    omega
  have hround := roundHalfEven_of_mul u (show 0 < 1 by omega)
  rw [Nat.mul_one] at hround
  have hinfinity : Double.infinityMagnitude = 9218868437227405312 := rfl
  unfold nearestMagnitude
  simp only [hshift, show powerOfTwo 0 = 1 from rfl, Nat.mul_one, Nat.zero_mul, Nat.zero_add,
    hround]
  omega

/-- A whole number of units that a finite double has is not changed by rounding. -/
theorem nearestMagnitude_units {m : Nat} (h : m < Double.infinityMagnitude) :
    nearestMagnitude (Double.unitsOfMagnitude m) 1 = m := by
  have hbits : Double.leadingBit = 4503599627370496 := rfl
  have hsplit := Nat.div_add_mod m Double.leadingBit
  have hmod := Nat.mod_lt m (show Double.leadingBit > 0 by omega)
  unfold Double.unitsOfMagnitude
  by_cases hsubnormal : m / Double.leadingBit = 0
  · simp only [hsubnormal, ↓reduceIte]
    rw [hsubnormal] at hsplit
    exact nearestMagnitude_of_lt (by omega)
  · simp only [hsubnormal, ↓reduceIte]
    -- a significand of 53 bits, shifted by one less than the exponent field
    obtain ⟨shift, hfield⟩ := Nat.exists_eq_succ_of_ne_zero hsubnormal
    generalize hs : Double.leadingBit + m % Double.leadingBit = significand
    have hlog : (significand * powerOfTwo shift).log2 = 52 + shift := by
      rw [Nat.log2_eq_iff (Nat.mul_ne_zero (by omega) (powerOfTwo_pos shift).ne')]
      show powerOfTwo (52 + shift) ≤ _ ∧ _ < powerOfTwo (52 + shift + 1)
      rw [powerOfTwo_add 52 shift, show 52 + shift + 1 = 53 + shift by omega,
        powerOfTwo_add 53 shift]
      have h52 : powerOfTwo 52 = 4503599627370496 := rfl
      have h53 : powerOfTwo 53 = 9007199254740992 := rfl
      exact ⟨Nat.mul_le_mul_right _ (by omega),
        Nat.mul_lt_mul_of_pos_right (by omega) (powerOfTwo_pos shift)⟩
    have hexcess : excessBits (significand * powerOfTwo shift) 1 = shift := by
      unfold excessBits
      rw [Nat.div_one, hlog]
      omega
    have hm : shift * Double.leadingBit + significand = m := by
      rw [hfield, Nat.mul_succ, Nat.mul_comm, Nat.add_assoc, hs] at hsplit
      exact hsplit
    rw [hfield, Nat.succ_sub_one]
    unfold nearestMagnitude
    simp only [hexcess, Nat.one_mul, roundHalfEven_of_mul _ (powerOfTwo_pos shift), hm]
    exact Nat.min_eq_left (Nat.le_of_lt h)

/-! ## Decimals -/

namespace Decimal

theorem toDouble_trim (x : Decimal) : x.trim.toDouble = x.toDouble := by
  fun_induction trim x with
  | case1 x h ih =>
    rw [ih]
    have hten : x.significand / 10 * 10 = x.significand := by omega
    unfold toDouble
    simp only
    rcases Int.lt_or_le x.exponent 0 with hneg | hpos
    · -- both sides of the quotient lose one power of ten
      have hden : (-x.exponent).toNat = (-(x.exponent + 1)).toNat + 1 := by omega
      have hnum : x.exponent.toNat = 0 ∧ (x.exponent + 1).toNat = 0 := by omega
      rw [hden, powerOfTen_succ, hnum.1, hnum.2, show powerOfTen 0 = 1 from rfl, Nat.mul_one,
        Nat.mul_one, ← Double.ofRatio_mul_right _ _ (show 0 < 10 by omega), hten]
    · have hnum : (x.exponent + 1).toNat = x.exponent.toNat + 1 := by omega
      have hden : (-x.exponent).toNat = 0 ∧ (-(x.exponent + 1)).toNat = 0 := by omega
      rw [hnum, powerOfTen_succ, hden.1, hden.2, Nat.mul_comm (powerOfTen _) 10, ← Nat.mul_assoc,
        hten]
  | case2 x h => rfl

end Decimal

/-! ## Digits -/

theorem isDigit_digitChar {n : Nat} (h : n < 10) : n.digitChar.isDigit = true := by
  have hmem : n.digitChar ∈ Nat.toDigits 10 n := by
    rw [Nat.toDigits_of_lt_base h]
    exact List.mem_singleton.mpr rfl
  exact Nat.isDigit_of_mem_toDigits (by omega) (by omega) hmem

theorem isDigit_of_mem_fixedDigits {count n : Nat} {c : Char} (h : c ∈ fixedDigits count n) :
    c.isDigit = true := by
  induction count generalizing n with
  | zero => simp [fixedDigits] at h
  | succ count ih =>
    rw [fixedDigits, List.mem_append, List.mem_singleton] at h
    rcases h with h | rfl
    · exact ih h
    · exact isDigit_digitChar (Nat.mod_lt n (by omega))

@[simp] theorem length_fixedDigits (count n : Nat) : (fixedDigits count n).length = count := by
  induction count generalizing n with
  | zero => rfl
  | succ count ih => rw [fixedDigits, List.length_append, ih, List.length_singleton]

theorem ofDigitChars_fixedDigits (count n : Nat) :
    Nat.ofDigitChars 10 (fixedDigits count n) 0 = n % powerOfTen count := by
  induction count generalizing n with
  | zero => rw [fixedDigits, Nat.ofDigitChars_nil, show powerOfTen 0 = 1 from rfl, Nat.mod_one]
  | succ count ih =>
    rw [fixedDigits, Nat.ofDigitChars_append, ih,
      Nat.ofDigitChars_cons_digitChar_of_lt_ten (Nat.mod_lt n (by omega)), Nat.ofDigitChars_nil,
      powerOfTen_succ, Nat.mul_comm (powerOfTen count) 10, Nat.mod_mul]
    omega

theorem ne_point_of_isDigit {c : Char} (h : c.isDigit = true) : c ≠ '.' := by
  rintro rfl
  simp at h

/-- Digits that a text begins with are all of it up to a point. -/
theorem takeWhile_digits {digits : List Char} (h : ∀ c ∈ digits, c.isDigit = true)
    (rest : List Char) :
    (digits ++ '.' :: rest).takeWhile (· ≠ '.') = digits ∧
      (digits ++ '.' :: rest).dropWhile (· ≠ '.') = '.' :: rest := by
  have hall : ∀ c ∈ digits, decide (c ≠ '.') = true := by
    intro c hc
    simpa using ne_point_of_isDigit (h c hc)
  constructor
  · rw [List.takeWhile_append_of_pos hall, List.takeWhile_cons_of_neg (by simp), List.append_nil]
  · rw [List.dropWhile_append_of_pos hall, List.dropWhile_cons_of_neg (by simp)]

theorem takeWhile_all_digits {digits : List Char} (h : ∀ c ∈ digits, c.isDigit = true) :
    digits.takeWhile (· ≠ '.') = digits ∧ digits.dropWhile (· ≠ '.') = [] := by
  have hall : ∀ c ∈ digits, decide (c ≠ '.') = true := by
    intro c hc
    simpa using ne_point_of_isDigit (h c hc)
  exact ⟨List.takeWhile_eq_self_iff.mpr hall, List.dropWhile_eq_nil_iff.mpr hall⟩

/-! ## Literals -/

/-- Digits, or digits with a point behind them and digits behind that. -/
inductive Positional : List Char → Prop
  | whole {digits : List Char} (hne : digits ≠ []) (h : ∀ c ∈ digits, c.isDigit = true) :
      Positional digits
  | point {digits fraction : List Char} (hne : digits ≠ [])
      (h : ∀ c ∈ digits, c.isDigit = true) (h' : ∀ c ∈ fraction, c.isDigit = true) :
      Positional (digits ++ '.' :: fraction)

namespace Positional

variable {text : List Char}

theorem ne_nil (h : Positional text) : text ≠ [] := by
  cases h with
  | whole hne h => exact hne
  | point hne h h' => simp

theorem isNumeric_of_mem (h : Positional text) {c : Char} (hc : c ∈ text) :
    isNumeric c = true := by
  have hdigit : ∀ {c : Char}, c.isDigit = true → isNumeric c = true := by
    intro c hc
    simp [isNumeric, hc]
  cases h with
  | whole hne h => exact hdigit (h c hc)
  | point hne h h' =>
    rcases List.mem_append.mp hc with hc | hc
    · exact hdigit (h c hc)
    · rcases List.mem_cons.mp hc with rfl | hc
      · decide
      · exact hdigit (h' c hc)

/-- Nothing of such a text is left out when it is read as a number. -/
theorem soundPart_eq (h : Positional text) : soundPart text = text := by
  have hup : upToSecondPoint text = text := by
    unfold upToSecondPoint
    cases h with
    | whole hne h =>
      obtain ⟨htake, hdrop⟩ := takeWhile_all_digits h
      simp only [hdrop, htake]
    | @point digits fraction hne h h' =>
      obtain ⟨htake, hdrop⟩ := takeWhile_digits h fraction
      simp only [hdrop, htake, (takeWhile_all_digits h').1]
  have hany : text.any Char.isDigit = true := by
    rw [List.any_eq_true]
    cases h with
    | whole hne h =>
      obtain ⟨d, rest, rfl⟩ := List.exists_cons_of_ne_nil hne
      exact ⟨d, by simp, h d (by simp)⟩
    | point hne h h' =>
      obtain ⟨d, rest, rfl⟩ := List.exists_cons_of_ne_nil hne
      exact ⟨d, by simp, h d (by simp)⟩
  unfold soundPart
  simp only [hup, hany, ↓reduceIte]

end Positional

namespace Decimal

theorem toPositional_of_nonneg {x : Decimal} (h : 0 ≤ x.exponent) :
    x.toPositional = Nat.toDigits 10 (x.significand * powerOfTen x.exponent.toNat) := by
  unfold toPositional
  simp only
  rw [if_pos (by omega)]

theorem toPositional_of_neg {x : Decimal} (h : x.exponent < 0) :
    x.toPositional = Nat.toDigits 10 (x.significand / powerOfTen (-x.exponent).toNat) ++
      '.' :: fixedDigits (-x.exponent).toNat x.significand := by
  have hscale : x.exponent.toNat = 0 := by omega
  unfold toPositional
  simp only
  rw [if_neg (by omega), hscale, show powerOfTen 0 = 1 from rfl, Nat.mul_one]

theorem isDigit_of_mem_toDigits {n : Nat} (c : Char) (h : c ∈ Nat.toDigits 10 n) :
    c.isDigit = true :=
  Nat.isDigit_of_mem_toDigits (by omega) (by omega) h

/-- The text of a decimal is digits with at most one point. -/
theorem positional_toPositional (x : Decimal) : Positional x.toPositional := by
  rcases Int.lt_or_le x.exponent 0 with hneg | hpos
  · rw [toPositional_of_neg hneg]
    exact .point Nat.toDigits_ne_nil isDigit_of_mem_toDigits
      fun _ => isDigit_of_mem_fixedDigits
  · rw [toPositional_of_nonneg hpos]
    exact .whole Nat.toDigits_ne_nil isDigit_of_mem_toDigits

/-- The text of a decimal reads back as the double nearest to the decimal. -/
theorem toDouble_ofLiteral_toPositional (x : Decimal) :
    (ofLiteral x.toPositional).toDouble = x.toDouble := by
  rcases Int.lt_or_le x.exponent 0 with hneg | hpos
  · -- the digits before and behind the point are those of the significand
    have hdigits : Nat.ofDigitChars 10 (Nat.toDigits 10
        (x.significand / powerOfTen (-x.exponent).toNat) ++
          fixedDigits (-x.exponent).toNat x.significand) 0 = x.significand := by
      rw [Nat.ofDigitChars_append, Nat.ofDigitChars_ten_toDigits,
        Nat.ofDigitChars_eq_ofDigitChars_zero, length_fixedDigits, ofDigitChars_fixedDigits]
      exact Nat.div_add_mod x.significand (powerOfTen (-x.exponent).toNat)
    have hread : ofLiteral x.toPositional = x := by
      rw [toPositional_of_neg hneg, ofLiteral]
      obtain ⟨htake, hdrop⟩ := @takeWhile_digits
        (Nat.toDigits 10 (x.significand / powerOfTen (-x.exponent).toNat)) isDigit_of_mem_toDigits
        (fixedDigits (-x.exponent).toNat x.significand)
      simp only [htake, hdrop, List.drop_one, List.tail_cons, hdigits, length_fixedDigits]
      have hexponent : -((-x.exponent).toNat : Int) = x.exponent := by omega
      rw [hexponent]
    rw [hread]
  · have hread : ofLiteral x.toPositional =
        ⟨x.significand * powerOfTen x.exponent.toNat, 0⟩ := by
      rw [toPositional_of_nonneg hpos, ofLiteral]
      obtain ⟨htake, hdrop⟩ := @takeWhile_all_digits
        (Nat.toDigits 10 (x.significand * powerOfTen x.exponent.toNat)) isDigit_of_mem_toDigits
      simp only [htake, hdrop, List.drop_nil, List.append_nil, Nat.ofDigitChars_ten_toDigits,
        List.length_nil]
      rfl
    have hplaces : (-x.exponent).toNat = 0 := by omega
    rw [hread, toDouble, toDouble, hplaces]
    simp only [Int.toNat_zero, Int.neg_zero, show powerOfTen 0 = 1 from rfl, Nat.mul_one]

end Decimal

/-! ## Doubles -/

namespace Double

theorem magnitude_ofMagnitude {m : Nat} (h : m ≤ infinityMagnitude) :
    (ofMagnitude false m).magnitude = m := by
  have hinfinity : infinityMagnitude = 9218868437227405312 := rfl
  have h63 : powerOfTwo 63 = 9223372036854775808 := rfl
  have hbits : (UInt64.ofNat m).toNat = m := by
    rw [UInt64.toNat_ofNat']
    exact Nat.mod_eq_of_lt (by omega)
  show (UInt64.ofNat m).toNat % powerOfTwo 63 = m
  rw [hbits]
  exact Nat.mod_eq_of_lt (by omega)

theorem eq_ofMagnitude {x : Double} (h : x.isNegative = false) :
    x = ofMagnitude false x.magnitude := by
  have hlt : x.bits.toNat < powerOfTwo 63 := by simpa [isNegative] using h
  have hmagnitude : x.magnitude = x.bits.toNat := Nat.mod_eq_of_lt hlt
  show x = ⟨UInt64.ofNat x.magnitude⟩
  rw [hmagnitude, UInt64.ofNat_toNat]

/-- A decimal whose double has a magnitude is read as the double of that magnitude. -/
theorem toDouble_eq_of_magnitude {x : Decimal} {m : Nat} (h : x.toDouble.magnitude = m) :
    x.toDouble = ofMagnitude false m := by
  have hle : ∀ n d, nearestMagnitude n d ≤ infinityMagnitude := fun n d => Nat.min_le_right _ _
  have hmagnitude : x.toDouble.magnitude = nearestMagnitude _ _ := magnitude_ofMagnitude (hle _ _)
  rw [← h, hmagnitude]
  rfl

theorem toDouble_zero (exponent : Int) : Decimal.toDouble ⟨0, exponent⟩ = ofMagnitude false 0 := by
  unfold Decimal.toDouble ofRatio
  have hround : ∀ d, roundHalfEven 0 d = 0 := by
    intro d
    simp [roundHalfEven]
  simp [nearestMagnitude, excessBits, hround]

/-- The exact value of a magnitude is read as the double of that magnitude. -/
theorem toDouble_exact {m : Nat} (h : m < infinityMagnitude) :
    Decimal.toDouble ⟨unitsOfMagnitude m * Nat.pow 5 1074, -1074⟩ = ofMagnitude false m := by
  unfold Decimal.toDouble ofRatio unitsInOne
  rw [show (-1074 : Int).toNat = 0 from rfl, show (-(-1074 : Int)).toNat = 1074 from rfl,
    show powerOfTen 0 = 1 from rfl, Nat.mul_one]
  -- the power itself plays no part, and is too large to be computed here
  generalize 1074 = n
  rw [nearestMagnitude_scaled, nearestMagnitude_units h]

/-- Whichever decimal is printed, it is read as the double of the magnitude. -/
theorem toDouble_shortestDecimal {m : Nat} (h : m < infinityMagnitude) :
    (shortestDecimal m).toDouble = ofMagnitude false m := by
  unfold shortestDecimal
  rw [Decimal.toDouble_trim]
  cases hfound : (List.range mostDigits).findSome? _ with
  | none => rw [Option.getD_none, toDouble_exact h]
  | some x =>
    obtain ⟨more, -, hmore⟩ := List.exists_of_findSome?_eq_some hfound
    have htried := List.find?_some hmore
    exact toDouble_eq_of_magnitude (of_decide_eq_true htried)

/-- The text is one number, and it is read as `x`. -/
structure IsLiteral (text : List Char) (x : Double) : Prop where
  positional : Positional text
  value : (Decimal.ofLiteral text).toDouble = x

/-- The text of a finite number that is not negative is digits with at most one point, and it is
    read as that number. -/
theorem toText_isLiteral {x : Double} (hfinite : x.isFinite = true)
    (hsign : x.isNegative = false) : IsLiteral x.toText.toList x := by
  have hlt : x.magnitude < infinityMagnitude := by simpa [isFinite] using hfinite
  have hnan : x.isNaN = false := by
    rw [isNaN, decide_eq_false_iff_not]
    omega
  have htext : x.toText.toList = magnitudeText x.magnitude := by
    simp [toText, hnan, hfinite, hsign]
  rw [htext, eq_ofMagnitude hsign, magnitude_ofMagnitude (Nat.le_of_lt hlt)]
  unfold magnitudeText
  split_ifs with hzero
  · refine ⟨.whole (by simp) (by simp), ?_⟩
    have hread : Decimal.ofLiteral ['0'] = ⟨0, 0⟩ := by decide
    rw [hread, toDouble_zero, hzero]
  · refine ⟨Decimal.positional_toPositional _, ?_⟩
    rw [Decimal.toDouble_ofLiteral_toPositional, toDouble_shortestDecimal hlt]

end Double

end Formulary

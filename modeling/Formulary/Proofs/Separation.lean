import Formulary.Code.Listing
import Formulary.Proofs.FreshNames
import Formulary.Proofs.NumberText

/-!
# Texts can be taken apart

A listing is put together from pieces with separators between them. A piece that holds no separator
ends where the first separator stands, so the pieces can be told from the whole text.

* `append_inj_of_stop`: two runs that end at a stop are equal if the texts are.
* `flatMap_cons_injective`: groups are told from their concatenation if each begins with a mark.
* `unlines_injective`, `commaSeparated_injective`: lines and lists.
* `Atomic`: texts without separators.
* `Double.constantText_injective`: the text of a constant determines its bits.
-/

namespace Formulary

/-! ## Runs and groups -/

section Groups

variable {α : Type}

/-- Two runs that end at a stop are equal if the whole texts are. -/
theorem append_inj_of_stop {p : α → Bool} {a b s t : List α} (ha : ∀ c ∈ a, p c = true)
    (hb : ∀ c ∈ b, p c = true) (hs : ∀ x tail, s = x :: tail → p x = false)
    (ht : ∀ x tail, t = x :: tail → p x = false) (h : a ++ s = b ++ t) : a = b ∧ s = t := by
  obtain ⟨hatake, hadrop⟩ := span_boundary ha hs
  obtain ⟨hbtake, hbdrop⟩ := span_boundary hb ht
  rw [h] at hatake hadrop
  exact ⟨hatake.symm.trans hbtake, hadrop.symm.trans hbdrop⟩

/-- Groups are told from their concatenation if each begins with a mark that stands nowhere else. -/
theorem flatMap_cons_injective [DecidableEq α] {mark : α} {gs gs' : List (List α)}
    (hgs : ∀ g ∈ gs, mark ∉ g) (hgs' : ∀ g ∈ gs', mark ∉ g)
    (h : gs.flatMap (mark :: ·) = gs'.flatMap (mark :: ·)) : gs = gs' := by
  induction gs generalizing gs' with
  | nil =>
    cases gs' with
    | nil => rfl
    | cons g' gs' => simp at h
  | cons g gs ih =>
    cases gs' with
    | nil => simp at h
    | cons g' gs' =>
      have hrun : ∀ g : List α, mark ∉ g → ∀ c ∈ g, decide (c ≠ mark) = true := by
        intro g hg c hc
        rw [decide_eq_true_eq]
        rintro rfl
        exact hg hc
      have hstop : ∀ gs : List (List α), ∀ x tail, gs.flatMap (mark :: ·) = x :: tail →
          decide (x ≠ mark) = false := by
        intro gs x tail heq
        cases gs with
        | nil => simp at heq
        | cons g gs => simpa using (List.cons.inj heq).1.symm
      rw [List.flatMap_cons, List.flatMap_cons, List.cons_append, List.cons_append] at h
      obtain ⟨rfl, hrest⟩ := append_inj_of_stop (hrun g (hgs g (by simp)))
        (hrun g' (hgs' g' (by simp))) (hstop gs) (hstop gs') (List.cons.inj h).2
      rw [ih (fun g hg => hgs g (List.mem_cons_of_mem _ hg))
        (fun g hg => hgs' g (List.mem_cons_of_mem _ hg)) hrest]

/-- A mark behind each group can be moved in front of it. -/
theorem flatMap_append_mark (mark : α) (gs : List (List α)) :
    mark :: gs.flatMap (· ++ [mark]) = gs.flatMap (mark :: ·) ++ [mark] := by
  induction gs with
  | nil => rfl
  | cons g gs ih =>
    rw [List.flatMap_cons, List.flatMap_cons, List.append_assoc, List.singleton_append, ih]
    simp

/-- What is told from the images of the elements is the same if the images are. -/
theorem map_eq_of_map_eq {β γ δ : Type} {l : List α} {l' : List β} {f : α → γ} {g : β → γ}
    {f' : α → δ} {g' : β → δ} (h : l.map f = l'.map g)
    (hstep : ∀ a ∈ l, ∀ b ∈ l', f a = g b → f' a = g' b) : l.map f' = l'.map g' := by
  induction l generalizing l' with
  | nil =>
    cases l' with
    | nil => rfl
    | cons b l' => simp at h
  | cons a l ih =>
    cases l' with
    | nil => simp at h
    | cons b l' =>
      rw [List.map_cons, List.map_cons] at h
      obtain ⟨hhead, htail⟩ := List.cons.inj h
      rw [List.map_cons, List.map_cons, hstep a (by simp) b (by simp) hhead,
        ih htail fun x hx y hy => hstep x (List.mem_cons_of_mem a hx) y (List.mem_cons_of_mem b hy)]

theorem eq_of_map_eq {γ : Type} {l l' : List α} {f g : α → γ} (h : l.map f = l'.map g)
    (hstep : ∀ a ∈ l, ∀ b ∈ l', f a = g b → a = b) : l = l' := by
  have hid : l.map id = l'.map id := map_eq_of_map_eq h hstep
  rwa [List.map_id, List.map_id] at hid

end Groups

/-! ## Lines and lists -/

theorem toList_unlines (lines : List String) :
    (unlines lines).toList = (lines.map String.toList).flatMap (· ++ ['\n']) := by
  induction lines with
  | nil => rfl
  | cons line lines ih =>
    rw [unlines, List.map_cons, String.join_cons, String.toList_append, String.toList_append]
    rw [unlines] at ih
    rw [ih, List.map_cons, List.flatMap_cons]
    rfl

theorem unlines_injective {lines lines' : List String} (h : ∀ l ∈ lines, '\n' ∉ l.toList)
    (h' : ∀ l ∈ lines', '\n' ∉ l.toList) (heq : unlines lines = unlines lines') :
    lines = lines' := by
  have hchars := congrArg ('\n' :: String.toList ·) heq
  simp only [toList_unlines, flatMap_append_mark, List.append_cancel_right_eq] at hchars
  refine eq_of_map_eq (flatMap_cons_injective ?_ ?_ hchars) ?_
  · simpa using h
  · simpa using h'
  · exact fun a _ b _ hab => String.toList_inj.mp hab

/-- With a comma in front of the first text as well, each text stands behind a comma. -/
theorem toList_commaSeparated (text : String) (texts : List String) :
    ',' :: ' ' :: (commaSeparated (text :: texts)).toList =
      ((text :: texts).map (' ' :: String.toList ·)).flatMap (',' :: ·) := by
  unfold commaSeparated
  induction texts generalizing text with
  | nil => simp
  | cons next texts ih =>
    rw [String.intercalate_cons_cons, String.toList_append, String.toList_append, List.map_cons,
      List.flatMap_cons, ← ih]
    simp

/-- Texts without commas are told from the list they make. -/
theorem commaSeparated_injective {texts texts' : List String}
    (h : ∀ t ∈ texts, t ≠ "" ∧ ',' ∉ t.toList) (h' : ∀ t ∈ texts', t ≠ "" ∧ ',' ∉ t.toList)
    (heq : commaSeparated texts = commaSeparated texts') : texts = texts' := by
  have hempty : ∀ (t : String) (ts : List String), t ≠ "" → commaSeparated (t :: ts) ≠ "" := by
    intro t ts ht heq
    have hchars := toList_commaSeparated t ts
    rw [heq] at hchars
    simp [ht] at hchars
  cases texts with
  | nil =>
    cases texts' with
    | nil => rfl
    | cons t' ts' => exact absurd heq.symm (hempty t' ts' (h' t' (by simp)).1)
  | cons t ts =>
    cases texts' with
    | nil => exact absurd heq (hempty t ts (h t (by simp)).1)
    | cons t' ts' =>
      have hchars := congrArg (',' :: ' ' :: String.toList ·) heq
      simp only [toList_commaSeparated] at hchars
      have hmark : ∀ texts : List String, (∀ t ∈ texts, t ≠ "" ∧ ',' ∉ t.toList) →
          ∀ g ∈ texts.map (' ' :: String.toList ·), ',' ∉ g := by
        intro texts htexts g hg
        obtain ⟨t, ht, rfl⟩ := List.mem_map.mp hg
        simpa using (htexts t ht).2
      refine eq_of_map_eq (flatMap_cons_injective (hmark _ h) (hmark _ h') hchars) ?_
      intro a _ b _ hab
      exact String.toList_inj.mp (List.cons.inj hab).2

/-! ## Atoms -/

/-- The characters that part the pieces of a line, and the end of a line. -/
def isSeparator (c : Char) : Bool := c = ' ' || c = ',' || c = '(' || c = '\n'

/-- A text without separators. -/
def Atomic (text : List Char) : Prop := ∀ c ∈ text, isSeparator c = false

instance (text : List Char) : Decidable (Atomic text) :=
  List.decidableBAll _ text

theorem atomic_nil : Atomic [] := by decide

theorem atomic_cons {c : Char} {text : List Char} :
    Atomic (c :: text) ↔ isSeparator c = false ∧ Atomic text := List.forall_mem_cons

theorem atomic_append {text text' : List Char} :
    Atomic (text ++ text') ↔ Atomic text ∧ Atomic text' := List.forall_mem_append

/-- An atom ends at a separator. -/
theorem Atomic.append_inj {a b s t : List Char} {x y : Char} (ha : Atomic a) (hb : Atomic b)
    (hx : isSeparator x = true) (hy : isSeparator y = true) (h : a ++ x :: s = b ++ y :: t) :
    a = b ∧ s = t := by
  have hstop : ∀ {x : Char} {s : List Char}, isSeparator x = true →
      ∀ z tail, x :: s = z :: tail → (!isSeparator z) = false := by
    intro x s hx z tail heq
    rw [← (List.cons.inj heq).1, hx, Bool.not_true]
  obtain ⟨hatoms, hrest⟩ := append_inj_of_stop (p := (!isSeparator ·))
    (fun c hc => by rw [ha c hc, Bool.not_false]) (fun c hc => by rw [hb c hc, Bool.not_false])
    (hstop hx) (hstop hy) h
  exact ⟨hatoms, (List.cons.inj hrest).2⟩

theorem isSeparator_of_isAlphanum {c : Char} (h : c.isAlphanum = true) : isSeparator c = false := by
  rw [Bool.eq_false_iff]
  intro hsep
  simp only [isSeparator, Bool.or_eq_true, decide_eq_true_eq] at hsep
  rcases hsep with ((rfl | rfl) | rfl) | rfl <;> exact absurd h (by decide)

theorem atomic_of_isWord {word : List Char} (h : isWord word = true) : Atomic word := by
  cases word with
  | nil => exact atomic_nil
  | cons x rest =>
    rw [isWord, Bool.and_eq_true, List.all_eq_true] at h
    rw [atomic_cons]
    exact ⟨isSeparator_of_isAlphanum (by simp [Char.isAlphanum, h.1]),
      fun c hc => isSeparator_of_isAlphanum (h.2 c hc)⟩

theorem atomic_of_digits {digits : List Char} (h : ∀ c ∈ digits, c.isDigit = true) :
    Atomic digits := fun c hc =>
  isSeparator_of_isAlphanum (by simp [Char.isAlphanum, h c hc])

/-! ## Constants -/

/-- The character of a digit, also of a number that is no digit, is no separator. -/
theorem digitChar_ne (n : Nat) : isSeparator n.digitChar = false ∧ n.digitChar ≠ '%' := by
  by_cases hn : n < 16
  · have hall : ∀ n < 16, isSeparator n.digitChar = false ∧ n.digitChar ≠ '%' := by decide
    exact hall n hn
  · have hstar : n.digitChar = '*' := by
      unfold Nat.digitChar
      repeat rw [if_neg (by omega)]
    rw [hstar]
    decide

namespace Double

/-- The parts of a text with an exponent. -/
theorem scientificText_eq (x : Double) : ∃ significand exponent,
    x.scientificText = (if x.isNegative then ['-'] else []) ++
      (significand / powerOfTen constantPlaces).digitChar :: '.' ::
        (fixedDigits constantPlaces significand ++ 'e' :: exponentText exponent) := by
  unfold scientificText
  rcases (if x.units = 0 then ((0, 0) : Nat × Int) else sevenDigits x.units) with
    ⟨significand, exponent⟩
  refine ⟨significand, exponent, ?_⟩
  simp only
  split_ifs <;> rfl

/-- The text with an exponent begins with a minus sign, or has a point behind the first digit. -/
theorem scientificText_shape (x : Double) :
    ∃ c d rest, x.scientificText = c :: d :: rest ∧ c ≠ '%' ∧ (c = '-' ∨ d = '.') := by
  obtain ⟨significand, exponent, htext⟩ := x.scientificText_eq
  rw [htext]
  split_ifs
  · exact ⟨_, _, _, rfl, by decide, .inl rfl⟩
  · exact ⟨_, _, _, rfl, (digitChar_ne _).2, .inr rfl⟩

theorem atomic_exponentText (exponent : Int) : Atomic (exponentText exponent) := by
  unfold exponentText
  simp only
  rw [atomic_cons]
  constructor
  · split_ifs <;> decide
  · split_ifs
    · exact atomic_of_digits fun c => isDigit_of_mem_fixedDigits
    · exact atomic_of_digits fun c => Nat.isDigit_of_mem_toDigits (by decide) (by decide)

theorem atomic_scientificText (x : Double) : Atomic x.scientificText := by
  obtain ⟨significand, exponent, htext⟩ := x.scientificText_eq
  rw [htext, atomic_append, atomic_cons, atomic_cons, atomic_append, atomic_cons]
  refine ⟨?_, (digitChar_ne _).1, by decide, ?_, by decide, atomic_exponentText exponent⟩
  · split_ifs
    · exact atomic_cons.mpr ⟨by decide, atomic_nil⟩
    · exact atomic_nil
  · exact atomic_of_digits fun c => isDigit_of_mem_fixedDigits

theorem hexDigit_ne_separator : ∀ n < 16, isSeparator (hexDigit n) = false := by decide

theorem hexDigit_injective : ∀ n < 16, ∀ n' < 16, hexDigit n = hexDigit n' → n = n' := by decide

theorem atomic_hexDigits (count n : Nat) : Atomic (hexDigits count n) := by
  induction count generalizing n with
  | zero => exact atomic_nil
  | succ count ih =>
    rw [hexDigits, atomic_append, atomic_cons]
    exact ⟨ih _, hexDigit_ne_separator _ (Nat.mod_lt n (by decide)), atomic_nil⟩

theorem hexDigits_injective {count n n' : Nat} (hn : n < Nat.pow 16 count)
    (hn' : n' < Nat.pow 16 count) (h : hexDigits count n = hexDigits count n') : n = n' := by
  induction count generalizing n n' with
  | zero =>
    have hone : Nat.pow 16 0 = 1 := rfl
    omega
  | succ count ih =>
    have hpow : Nat.pow 16 (count + 1) = Nat.pow 16 count * 16 := rfl
    rw [hexDigits, hexDigits] at h
    obtain ⟨hinit, hlast⟩ := List.append_inj' h rfl
    have hquotient : n / 16 = n' / 16 := ih (by omega) (by omega) hinit
    have hremainder := hexDigit_injective _ (Nat.mod_lt n (by decide)) _
      (Nat.mod_lt n' (by decide)) (List.cons.inj hlast).1
    omega

theorem patternText_injective {x y : Double} (h : x.patternText = y.patternText) : x = y := by
  have hdigits := (List.cons.inj (List.cons.inj h).2).2
  have hbits := hexDigits_injective x.bits.toNat_lt y.bits.toNat_lt hdigits
  exact congrArg Double.mk (UInt64.toNat_inj.mp hbits)

theorem atomic_constantText (x : Double) : Atomic x.constantText.toList := by
  unfold constantText
  simp only [String.toList_ofList]
  split_ifs
  · exact x.atomic_scientificText
  · unfold patternText
    rw [atomic_cons, atomic_cons]
    exact ⟨by decide, by decide, atomic_hexDigits _ _⟩

/-- A constant begins with a minus sign, or its second character is a point or an `x`. -/
theorem constantText_shape (x : Double) :
    ∃ c d rest, x.constantText.toList = c :: d :: rest ∧ c ≠ '%' ∧
      (c = '-' ∨ d = '.' ∨ d = 'x') := by
  unfold constantText
  simp only [String.toList_ofList]
  split_ifs
  · obtain ⟨c, d, rest, htext, hc, hd⟩ := x.scientificText_shape
    exact ⟨c, d, rest, htext, hc, hd.imp_right .inl⟩
  · exact ⟨_, _, _, rfl, by decide, .inr (.inr rfl)⟩

theorem scientificText_ne_patternText (x y : Double) : x.scientificText ≠ y.patternText := by
  obtain ⟨c, d, rest, htext, -, hshape⟩ := x.scientificText_shape
  rw [htext]
  intro heq
  obtain ⟨rfl, htail⟩ := List.cons.inj heq
  obtain ⟨rfl, -⟩ := List.cons.inj htail
  rcases hshape with hc | hd
  · exact absurd hc (by decide)
  · exact absurd hd (by decide)

theorem constantText_injective {x y : Double} (h : x.constantText = y.constantText) : x = y := by
  have hchars := congrArg String.toList h
  unfold constantText at hchars
  simp only [String.toList_ofList] at hchars
  split_ifs at hchars with hx hy hy
  · -- both texts read back as their numbers
    rw [Bool.and_eq_true, decide_eq_true_eq] at hx hy
    rw [hchars, hy.2] at hx
    exact (Option.some.inj hx.2).symm
  · exact absurd hchars (scientificText_ne_patternText x y)
  · exact absurd hchars.symm (scientificText_ne_patternText y x)
  · exact patternText_injective hchars

end Double

end Formulary

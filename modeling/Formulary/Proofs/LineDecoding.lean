import Formulary.Text.Lines
import Mathlib.Data.List.TakeWhile

/-!
# Decoding line by line

The byte that ends a line stands for a character of its own in UTF-8 and is part of no other. So
bytes are UTF-8 if and only if each of their lines is, and then the texts of the lines make up the
text of the whole.

* `Lines`: what it is to be the lines of a sequence of bytes; `splitLines_lines`.
* `splitLines_eq`: taking the first line again and again gives all lines.
* `encode`: the bytes of characters; `encode_split` cuts them at the end of a line.
* `leadingLines`: the lines before the first one that is not UTF-8; `exists_leading_lines`.
* `allLinesDecode_eq`, `leadingText_eq`: decoding by lines is decoding at once.
-/

namespace Formulary

/-! ## Lines -/

/-- The lines of a sequence of bytes, each with its end. The last one may have none. -/
inductive Lines : List UInt8 → List (List UInt8) → Prop
  | nil : Lines [] []
  | last {body : List UInt8} : body ≠ [] → lineFeed ∉ body → Lines body [body]
  | line {body rest : List UInt8} {lines : List (List UInt8)} : lineFeed ∉ body →
      Lines rest lines → Lines (body ++ lineFeed :: rest) ((body ++ [lineFeed]) :: lines)

theorem Lines.flatten {bytes : List UInt8} {lines : List (List UInt8)} (h : Lines bytes lines) :
    lines.flatten = bytes := by
  induction h with
  | nil => rfl
  | last => simp
  | line hbody hrest ih => simp [ih]

/-- Splits into lines. The lines so far stand in `done`, in reverse, and the bytes of the next one
    in `line`, in reverse. -/
def splitLinesOnto (done : List (List UInt8)) (line : List UInt8) :
    List UInt8 → List (List UInt8)
  | [] => (if line.isEmpty then done else line.reverse :: done).reverse
  | b :: rest =>
    if b = lineFeed then splitLinesOnto ((b :: line).reverse :: done) [] rest
    else splitLinesOnto done (b :: line) rest

/-- The lines of a sequence of bytes. -/
def splitLines (bytes : List UInt8) : List (List UInt8) := splitLinesOnto [] [] bytes

/-- Whether every line is UTF-8. -/
def allLinesDecode (bytes : ByteArray) : Bool :=
  (splitLines bytes.toList).all fun line => (decodeLine? line).isSome

/-- The text of the lines before the first one that is not UTF-8. -/
def leadingText (bytes : ByteArray) : String :=
  String.join ((((splitLines bytes.toList).map decodeLine?).takeWhile (·.isSome)).filterMap id)

/-- Either there is no end of a line, or the first one ends the first line. -/
theorem takeLine_cases (bytes : List UInt8) :
    (lineFeed ∉ bytes ∧ takeLine bytes = (bytes, [])) ∨
      ∃ body rest, lineFeed ∉ body ∧ bytes = body ++ lineFeed :: rest ∧
        takeLine bytes = (body ++ [lineFeed], rest) := by
  induction bytes with
  | nil => exact .inl ⟨List.not_mem_nil, rfl⟩
  | cons b bytes ih =>
    rw [takeLine_cons]
    split_ifs with hb
    · exact .inr ⟨[], bytes, List.not_mem_nil, by rw [hb, List.nil_append], by rw [hb]; rfl⟩
    · rcases ih with ⟨hnone, htake⟩ | ⟨body, rest, hbody, rfl, htake⟩
      · exact .inl ⟨by simp [hnone, Ne.symm hb], by rw [htake]⟩
      · exact .inr ⟨b :: body, rest, by simp [hbody, Ne.symm hb], rfl, by rw [htake]; rfl⟩

theorem takeLine_ne_nil {bytes : List UInt8} (h : bytes ≠ []) : (takeLine bytes).1 ≠ [] := by
  rcases takeLine_cases bytes with ⟨-, htake⟩ | ⟨body, rest, -, -, htake⟩
  · rwa [htake]
  · simp [htake]

theorem length_takeLine_lt {bytes : List UInt8} (h : bytes ≠ []) :
    (takeLine bytes).2.length < bytes.length := by
  rcases takeLine_cases bytes with ⟨-, htake⟩ | ⟨body, rest, -, rfl, htake⟩
  · rw [htake]
    exact List.length_pos_iff.mpr h
  · simp only [htake, List.length_append, List.length_cons]
    omega

/-- The bytes of the line so far are the first ones of the next line. -/
theorem splitLinesOnto_eq (done : List (List UInt8)) (line bytes : List UInt8) :
    splitLinesOnto done line bytes =
      done.reverse ++ if line = [] ∧ bytes = [] then [] else
        (line.reverse ++ (takeLine bytes).1) :: splitLines (takeLine bytes).2 := by
  induction bytes generalizing done line with
  | nil =>
    cases line with
    | nil => simp [splitLinesOnto]
    | cons b line => simp [splitLinesOnto, takeLine_nil, splitLines]
  | cons b rest ih =>
    simp only [splitLinesOnto, takeLine_cons, reduceCtorEq, and_false, ↓reduceIte]
    by_cases hb : b = lineFeed
    · have hrest : splitLines rest =
          if rest = [] then [] else (takeLine rest).1 :: splitLines (takeLine rest).2 := by
        rw [splitLines, ih]
        simp
      rw [if_pos hb, if_pos hb, ih, hrest]
      simp
    · rw [if_neg hb, if_neg hb, ih]
      simp

theorem splitLines_eq {bytes : List UInt8} (h : bytes ≠ []) :
    splitLines bytes = (takeLine bytes).1 :: splitLines (takeLine bytes).2 := by
  rw [splitLines, splitLinesOnto_eq]
  simp [h]

theorem splitLines_lines (bytes : List UInt8) : Lines bytes (splitLines bytes) := by
  induction hn : bytes.length using Nat.strongRecOn generalizing bytes with
  | ind n ih =>
    by_cases hnil : bytes = []
    · subst hnil
      exact .nil
    · have hrest := ih _ (hn ▸ length_takeLine_lt hnil) (takeLine bytes).2 rfl
      rw [splitLines_eq hnil]
      rcases takeLine_cases bytes with ⟨hnone, htake⟩ | ⟨body, rest, hbody, hbytes, htake⟩
      · rw [htake]
        exact .last hnil hnone
      · rw [htake] at hrest ⊢
        rw [hbytes]
        exact .line hbody hrest

/-! ## Bytes of characters -/

/-- The bytes of characters in UTF-8. -/
def encode (text : List Char) : List UInt8 := text.flatMap String.utf8EncodeChar

theorem encode_append (a b : List Char) : encode (a ++ b) = encode a ++ encode b :=
  List.flatMap_append

theorem data_toByteArray (s : String) : s.toByteArray.data.toList = encode s.toList := by
  rw [← String.utf8Encode_toList, List.utf8Encode, List.toList_data_toByteArray]
  rfl

theorem fromUTF8?_eq_some_iff {bytes : ByteArray} {text : String} :
    String.fromUTF8? bytes = some text ↔ bytes.data.toList = encode text.toList := by
  have hiff : bytes.data.toList = encode text.toList ↔ bytes = text.toByteArray := by
    rw [← data_toByteArray, Array.toList_inj]
    exact ⟨ByteArray.ext, congrArg _⟩
  rw [hiff, String.fromUTF8?]
  split_ifs with hvalid
  · rw [Option.some_inj, ← String.toByteArray_inj]
    rfl
  · refine iff_of_false (by simp) ?_
    rintro rfl
    exact hvalid text.isValidUTF8

theorem decodeLine?_eq_some_iff {line : List UInt8} {text : String} :
    decodeLine? line = some text ↔ line = encode text.toList := by
  rw [decodeLine?, fromUTF8?_eq_some_iff]

theorem decodeLine?_encode (text : List Char) :
    decodeLine? (encode text) = some (String.ofList text) := by
  rw [decodeLine?_eq_some_iff, String.toList_ofList]

/-- The end of a line is among the bytes of one character only. -/
theorem eq_newline_of_mem {c : Char} (h : lineFeed ∈ String.utf8EncodeChar c) : c = '\n' := by
  obtain ⟨i, hi, hbyte⟩ := List.getElem_of_mem h
  -- it can only be a first byte, and it is all of a newline
  have hfirst : (String.utf8EncodeChar c)[i].IsUTF8FirstByte := by
    rw [hbyte]
    exact .inl (by decide)
  obtain rfl := UInt8.isUTF8FirstByte_getElem_utf8EncodeChar.mp hfirst
  obtain ⟨b, rest, hbytes⟩ := List.exists_cons_of_ne_nil (@String.utf8EncodeChar_ne_nil c)
  simp only [hbytes, List.getElem_cons_zero] at hbyte
  have happend : ['\n'].utf8Encode ++ rest.toByteArray = [c].utf8Encode := by
    rw [List.utf8Encode_singleton, List.utf8Encode_singleton, hbytes, ← List.toByteArray_append,
      hbyte]
    rfl
  have hprefix := List.isPrefix_of_utf8Encode_append_eq_utf8Encode _ happend
  simpa [eq_comm] using hprefix

/-- Bytes of characters can be cut at the end of a line: before and behind it are bytes of
    characters. -/
theorem encode_split {text : List Char} {body rest : List UInt8}
    (h : encode text = body ++ lineFeed :: rest) :
    ∃ before behind, encode before = body ∧ encode behind = rest := by
  induction text generalizing body with
  | nil => simp [encode] at h
  | cons c text ih =>
    have hcons : String.utf8EncodeChar c ++ encode text = body ++ lineFeed :: rest := h
    rcases List.append_eq_append_iff.mp hcons with ⟨more, rfl, htext⟩ | ⟨more, hchar, hmore⟩
    · obtain ⟨before, behind, rfl, hbehind⟩ := ih htext
      exact ⟨c :: before, behind, rfl, hbehind⟩
    · cases more with
      | nil =>
        have htext : encode text = [] ++ lineFeed :: rest := hmore.symm
        obtain ⟨before, behind, hbefore, hbehind⟩ := ih htext
        refine ⟨c :: before, behind, ?_, hbehind⟩
        show String.utf8EncodeChar c ++ encode before = body
        rw [hchar, hbefore, List.append_nil, List.append_nil]
      | cons b more =>
        obtain ⟨rfl, rfl⟩ := List.cons.inj hmore
        have hnewline : c = '\n' := eq_newline_of_mem (by rw [hchar]; simp)
        rw [hnewline] at hchar
        have hsingle : [lineFeed] = body ++ lineFeed :: more := hchar
        cases body with
        | nil =>
          obtain rfl : [] = more := (List.cons.inj hsingle).2
          exact ⟨[], text, rfl, rfl⟩
        | cons b body => simp at hsingle

/-- The lines of bytes of characters are bytes of characters. -/
theorem Lines.decode {bytes : List UInt8} {lines : List (List UInt8)} (h : Lines bytes lines)
    {text : List Char} (htext : encode text = bytes) :
    ∀ line ∈ lines, (decodeLine? line).isSome = true := by
  induction h generalizing text with
  | nil => simp
  | last hne hbody =>
    simp [← htext, decodeLine?_encode]
  | @line body rest lines hbody hrest ih =>
    obtain ⟨before, behind, rfl, hbehind⟩ := encode_split htext
    have hfirst : encode before ++ [lineFeed] = encode (before ++ ['\n']) :=
      (encode_append before ['\n']).symm
    intro line hline
    rcases List.mem_cons.mp hline with rfl | hline
    · rw [hfirst, decodeLine?_encode]
      rfl
    · exact ih hbehind line hline

/-! ## Lines before the first that is not UTF-8 -/

/-- The lines before the first one that is not UTF-8. -/
def leadingLines (bytes : List UInt8) : List (List UInt8) :=
  (splitLines bytes).takeWhile fun line => (decodeLine? line).isSome

/-- The characters of the lines before the first one that is not UTF-8. -/
def leadingChars (bytes : List UInt8) : List Char :=
  (leadingLines bytes).flatMap fun line => ((decodeLine? line).getD "").toList

theorem toList_leadingText (bytes : ByteArray) :
    (leadingText bytes).toList = leadingChars bytes.toList := by
  rw [leadingText, leadingChars, leadingLines, String.toList_join]
  induction splitLines bytes.toList with
  | nil => rfl
  | cons line lines ih =>
    cases hline : decodeLine? line with
    | none => simp [hline]
    | some text => simpa [hline] using ih

theorem leadingChars_of_some {bytes : List UInt8} {text : String} (h : bytes ≠ [])
    (htext : decodeLine? (takeLine bytes).1 = some text) :
    leadingChars bytes = text.toList ++ leadingChars (takeLine bytes).2 := by
  rw [leadingChars, leadingLines, splitLines_eq h, List.takeWhile_cons_of_pos (by simp [htext]),
    List.flatMap_cons, htext]
  rfl

theorem leadingChars_of_none {bytes : List UInt8} (h : bytes ≠ [])
    (hnone : decodeLine? (takeLine bytes).1 = none) : leadingChars bytes = [] := by
  rw [leadingChars, leadingLines, splitLines_eq h, List.takeWhile_cons_of_neg (by simp [hnone])]
  rfl

theorem isSome_of_mem_leadingLines (bytes : List UInt8) :
    ∀ line ∈ leadingLines bytes, (decodeLine? line).isSome = true := by
  intro line hline
  exact List.mem_takeWhile_imp (p := fun line => (decodeLine? line).isSome) hline

/-- The lines before the first one that is not UTF-8 are the bytes of their characters. -/
theorem flatten_leadingLines (bytes : List UInt8) :
    (leadingLines bytes).flatten = encode (leadingChars bytes) := by
  have hdecode := isSome_of_mem_leadingLines bytes
  rw [leadingChars]
  generalize leadingLines bytes = lines at hdecode ⊢
  induction lines with
  | nil => rfl
  | cons line lines ih =>
    obtain ⟨text, htext⟩ := Option.isSome_iff_exists.mp (hdecode line List.mem_cons_self)
    rw [List.flatten_cons, List.flatMap_cons, encode_append, htext, Option.getD_some,
      ← decodeLine?_eq_some_iff.mp htext,
      ih fun line hline => hdecode line (List.mem_cons_of_mem _ hline)]

/-- The lines are those before the first one that is not UTF-8, whose text is the leading one, and
    the rest. -/
theorem exists_leading_lines (bytes : ByteArray) :
    ∃ before rest, Lines bytes.toList (before ++ rest) ∧
      (∀ line ∈ before, (decodeLine? line).isSome) ∧
      (∀ line ∈ rest.head?, decodeLine? line = none) ∧
      decodeLine? before.flatten = some (leadingText bytes) := by
  refine ⟨leadingLines bytes.toList,
    (splitLines bytes.toList).dropWhile fun line => (decodeLine? line).isSome, ?_,
    isSome_of_mem_leadingLines bytes.toList, fun line hline => ?_, ?_⟩
  · rw [leadingLines, List.takeWhile_append_dropWhile]
    exact splitLines_lines bytes.toList
  · have hnot := List.head?_dropWhile_not (fun line => (decodeLine? line).isSome)
      (splitLines bytes.toList)
    rw [Option.mem_def.mp hline] at hnot
    simpa using hnot
  · rw [decodeLine?_eq_some_iff, flatten_leadingLines, toList_leadingText]

/-! ## Decoding at once -/

theorem toList_loop_eq (bytes : ByteArray) (i : Nat) (done : List UInt8) :
    ByteArray.toList.loop bytes i done = done.reverse ++ bytes.data.toList.drop i := by
  fun_induction ByteArray.toList.loop bytes i done with
  | case1 i done hlt ih =>
    have hi : i < bytes.data.toList.length := by simpa using hlt
    have hget : bytes.get! i = bytes.data.toList[i] := by
      rw [Array.getElem_toList]
      exact getElem!_pos bytes.data i (by simpa using hlt)
    rw [ih, List.drop_eq_getElem_cons hi, hget]
    simp
  | case2 i done hge =>
    have hlength : bytes.data.toList.length ≤ i := by simpa using hge
    rw [List.drop_eq_nil_of_le hlength, List.append_nil]

theorem toList_eq_data (bytes : ByteArray) : bytes.toList = bytes.data.toList := by
  rw [ByteArray.toList, toList_loop_eq]
  rfl

/-- If every line is UTF-8, the text of the lines is the text of the whole. -/
theorem fromUTF8?_of_allLinesDecode {bytes : ByteArray} (h : allLinesDecode bytes = true) :
    String.fromUTF8? bytes = some (leadingText bytes) := by
  have hlines : leadingLines bytes.toList = splitLines bytes.toList :=
    List.takeWhile_eq_self_iff.mpr (List.all_eq_true.mp h)
  rw [fromUTF8?_eq_some_iff, toList_leadingText, ← flatten_leadingLines, hlines,
    (splitLines_lines _).flatten, toList_eq_data]

theorem allLinesDecode_eq (bytes : ByteArray) :
    allLinesDecode bytes = (String.fromUTF8? bytes).isSome := by
  rw [Bool.eq_iff_iff]
  constructor
  · intro h
    rw [fromUTF8?_of_allLinesDecode h]
    rfl
  · intro h
    obtain ⟨text, htext⟩ := Option.isSome_iff_exists.mp h
    rw [fromUTF8?_eq_some_iff, ← toList_eq_data] at htext
    exact List.all_eq_true.mpr ((splitLines_lines _).decode htext.symm)

theorem leadingText_eq {bytes : ByteArray} {text : String}
    (h : String.fromUTF8? bytes = some text) : leadingText bytes = text := by
  have hall : allLinesDecode bytes = true := by
    rw [allLinesDecode_eq, h]
    rfl
  rw [fromUTF8?_of_allLinesDecode hall] at h
  exact Option.some.inj h

end Formulary

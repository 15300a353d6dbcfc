/-!
# Lines of bytes

Text that arrives as bytes is read and decoded line by line.

* `takeLine`: the first line of a sequence of bytes and what is behind it; its steps are
  `takeLine_nil` and `takeLine_cons`.
* `decodeLine?`: the text of a line that is UTF-8; it is not longer than the line
  (`length_le_of_decodeLine?`).
-/

namespace Formulary

/-- The byte that ends a line. -/
def lineFeed : UInt8 := 0x0A

/-- Takes a line. The bytes of the line so far stand in `line`, in reverse. -/
def takeLineOnto (line : List UInt8) : List UInt8 → List UInt8 × List UInt8
  | [] => (line.reverse, [])
  | b :: rest => if b = lineFeed then ((b :: line).reverse, rest) else takeLineOnto (b :: line) rest

/-- The first line, with its end, and the bytes behind it (`read_line`). The last line may have no
    end. -/
def takeLine (bytes : List UInt8) : List UInt8 × List UInt8 := takeLineOnto [] bytes

/-- The text of a line that is UTF-8. -/
def decodeLine? (line : List UInt8) : Option String := String.fromUTF8? ⟨line.toArray⟩

theorem takeLineOnto_eq (line bytes : List UInt8) :
    takeLineOnto line bytes = (line.reverse ++ (takeLine bytes).1, (takeLine bytes).2) := by
  unfold takeLine
  induction bytes generalizing line with
  | nil => simp [takeLineOnto]
  | cons b rest ih =>
    simp only [takeLineOnto]
    split
    · simp
    · rw [ih, ih [b]]
      simp

theorem takeLine_nil : takeLine [] = ([], []) := rfl

theorem takeLine_cons (b : UInt8) (rest : List UInt8) :
    takeLine (b :: rest) =
      if b = lineFeed then ([b], rest) else (b :: (takeLine rest).1, (takeLine rest).2) := by
  rw [takeLine, takeLineOnto, takeLineOnto_eq]
  rfl

/-- A line and the bytes behind it are all bytes. -/
theorem takeLine_append (bytes : List UInt8) :
    (takeLine bytes).1 ++ (takeLine bytes).2 = bytes := by
  induction bytes with
  | nil => rfl
  | cons b rest ih =>
    rw [takeLine_cons]
    split
    · rfl
    · rw [List.cons_append, ih]

/-- Each character takes at least one byte. -/
theorem length_le_byteCount (text : List Char) : text.length ≤ text.utf8Encode.size := by
  induction text with
  | nil => exact Nat.zero_le _
  | cons c text ih =>
    have hpos := c.utf8Size_pos
    rw [List.utf8Encode_cons, ByteArray.size_append, List.utf8Encode_singleton,
      List.size_toByteArray, String.length_utf8EncodeChar, List.length_cons]
    omega

theorem length_le_of_decodeLine? {line : List UInt8} {text : String}
    (h : decodeLine? line = some text) : text.toList.length ≤ line.length := by
  unfold decodeLine? String.fromUTF8? at h
  split at h
  · obtain rfl := Option.some.inj h
    have hle := length_le_byteCount (String.fromUTF8 ⟨line.toArray⟩ ‹_›).toList
    rw [String.utf8Encode_toList] at hle
    exact hle
  · simp at h

end Formulary

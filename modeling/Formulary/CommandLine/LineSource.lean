import Formulary.CommandLine.Files
import Formulary.Lexical.Source
import Formulary.Text.Lines

/-!
# Characters from lines

Standard input is read a line at a time and handed out one character at a time. At a line that is
not UTF-8 an end is handed out and a failure is noted.

* `LineSource`, `LineSource.next`: bytes that are read by lines.
-/

namespace Formulary

/-- Bytes that are read a line at a time and handed out as characters (`StdinChars`). -/
structure LineSource where
  unread : List UInt8
  /-- The characters of the last line that have not been handed out. -/
  line : List Char
  /-- Why the last line could not be read. -/
  error : Option FileError

namespace LineSource

/-- Before the first character. -/
def ofBytes (bytes : ByteArray) : LineSource := ⟨bytes.toList, [], none⟩

/-- Hands out the next character. When the last line is used up, another one is read first; without
    bytes left and at a line that is not UTF-8, an end is handed out. -/
def next (s : LineSource) : Option Char × LineSource :=
  match s.line with
  | c :: line => (some c, ⟨s.unread, line, s.error⟩)
  | [] =>
    let (line, rest) := takeLine s.unread
    if line.isEmpty then (none, s)
    else
      match decodeLine? line with
      | none => (none, ⟨rest, [], some .notText⟩)
      | some text => (text.toList.head?, ⟨rest, text.toList.tail, s.error⟩)

/-- A bound on the characters that are left: each takes a byte at least. -/
def size (s : LineSource) : Nat := s.line.length + s.unread.length

theorem size_next (s : LineSource) : s.next.2.size + s.next.1.toList.length ≤ s.size := by
  obtain ⟨unread, line, error⟩ := s
  cases line with
  | cons c line =>
    simp only [next, size, Option.toList_some, List.length_cons, List.length_nil]
    omega
  | nil =>
    have hbytes := congrArg List.length (takeLine_append unread)
    rw [List.length_append] at hbytes
    simp only [next, size]
    split
    · exact Nat.le_refl _
    · cases htext : decodeLine? (takeLine unread).1 with
      | none =>
        simp only [List.length_nil, Option.toList_none]
        omega
      | some text =>
        have hle := length_le_of_decodeLine? htext
        have hsplit : text.toList.tail.length + text.toList.head?.toList.length =
            text.toList.length := by
          cases text.toList <;> simp
        simp only [List.length_nil]
        omega

instance : CharSource LineSource := ⟨next, size, size_next⟩

end LineSource

end Formulary

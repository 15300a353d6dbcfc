/-!
# Precedences of operators

A table gives some characters a precedence; a higher one binds tighter. A character whose entry is
not positive is no operator.

* `PrecedenceTable.get?`: the precedence of an operator.
* `PrecedenceTable.standard`: the operators of the language.
* `PrecedenceTable.get?_insert`: a new entry replaces the old one and leaves the others alone.
-/

namespace Formulary

/-- Precedences by character. The first entry of a character counts. -/
structure PrecedenceTable where
  entries : List (Char × Int32)

namespace PrecedenceTable

/-- The table without entries (`empty`). -/
def empty : PrecedenceTable := ⟨[]⟩

/-- The entry of a character, positive or not. -/
def stored? (table : PrecedenceTable) (op : Char) : Option Int32 := table.entries.lookup op

/-- The precedence of an operator (`get`); none for a character that is no operator. -/
def get? (table : PrecedenceTable) (op : Char) : Option Int32 :=
  (table.stored? op).filter (0 < ·)

/-- Gives a character an entry in place of the one it had (`insert`). -/
def insert (table : PrecedenceTable) (op : Char) (precedence : Int32) : PrecedenceTable :=
  ⟨(op, precedence) :: table.entries⟩

/-- The operators of the language (`default`): comparison binds least and multiplication most. -/
def standard : PrecedenceTable := ⟨[('<', 10), ('+', 20), ('-', 20), ('*', 40)]⟩

/-- Every entry of the first table is one of the second. -/
def within (a b : PrecedenceTable) : Bool :=
  a.entries.all fun (op, _) => b.stored? op = a.stored? op

/-- Both tables have the same entries, those that are no operators included. -/
def sameEntries (a b : PrecedenceTable) : Bool := a.within b && b.within a

theorem stored?_insert (table : PrecedenceTable) (op c : Char) (precedence : Int32) :
    (table.insert op precedence).stored? c =
      if c = op then some precedence else table.stored? c := by
  unfold stored? insert
  rw [List.lookup_cons]
  by_cases h : c = op
  · simp [h]
  · have hc : (c == op) = false := by simpa using h
    rw [hc, if_neg h]

/-- After an insertion the character has the new precedence, and all others keep theirs. -/
theorem get?_insert (table : PrecedenceTable) (op c : Char) (precedence : Int32) :
    (table.insert op precedence).get? c =
      if c = op then (some precedence).filter (0 < ·) else table.get? c := by
  unfold get?
  rw [stored?_insert]
  split <;> rfl

end PrecedenceTable

end Formulary

import Chatsy.Foundation.WordPairs
import Mathlib.Order.Fin.Basic
import Mathlib.Data.List.Sort

/-!
# Dart strings

A Dart `String` is a sequence of UTF-16 code units, and `compareTo` orders two
of them lexicographically by code unit. String literals of the source are
written with `text`.
-/

namespace Chatsy

/-- One UTF-16 code unit. -/
abbrev CodeUnit := Fin 65536

/-- A Dart `String`. -/
abbrev Text := List CodeUnit

/-- The code units of one character: itself, or a surrogate pair above `U+FFFF`. -/
def codeUnits (c : Char) : Text :=
  if c.toNat < 0x10000 then [Fin.ofNat 65536 c.toNat]
  else
    let v := c.toNat - 0x10000
    [Fin.ofNat 65536 (0xD800 + v / 0x400), Fin.ofNat 65536 (0xDC00 + v % 0x400)]

/-- The Dart string of a literal. -/
def text (s : String) : Text := s.toList.flatMap codeUnits

/-- The lower case of the letters `A` to `Z`; other code units stay. -/
def lowerCase (s : Text) : Text :=
  s.map fun u => if 65 ≤ u.val ∧ u.val ≤ 90 then Fin.ofNat 65536 (u.val + 32) else u

/-- `toString()` of a nullable string: the word `null` for the null reference. -/
def toStringOrNull : Option Text → Text
  | none => text "null"
  | some s => s

@[simp] theorem toStringOrNull_none : toStringOrNull none = text "null" := rfl

@[simp] theorem toStringOrNull_some (s : Text) : toStringOrNull (some s) = s := rfl

/-- `List<String>.sort()`, by `compareTo`. -/
def sortStrings (names : List Text) : List Text := names.insertionSort (· ≤ ·)

theorem sortStrings_pair (a b : Text) :
    sortStrings [a, b] = if a ≤ b then [a, b] else [b, a] := by
  simp only [sortStrings, List.insertionSort_cons, List.insertionSort_nil,
    List.orderedInsert_nil, List.orderedInsert_cons]

end Chatsy

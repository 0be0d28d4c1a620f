/-
The position clause: the place at which a text went wrong, ` at line 3 column 4` at the end of a message.

Messages are kept without it, so a message also loses a clause that it happens to end in. Both numbers of a clause are
decimal digits, below the size of a 64-bit word.
- `stem?_eq_some_iff`: `stem?` finds a clause exactly if the text ends in one, and gives what stands before it.
-/
import ReplicatedOrders.Text.Numeral

namespace ReplicatedOrders.Text

/-- decimal digits whose value fits 64 bits -/
def IsWord (ds : List Char) : Prop :=
  (∀ c ∈ ds, c.isDigit = true) ∧ (Numeral.parseBounded UInt64.size (String.ofList ds)).isOk = true

/-! ## Reading from the end -/

/-- what stands before a word, a blank and a number at the end, of a text that is given from its end -/
def beforeNumber (word reversed : List Char) : Option (List Char) :=
  if (Numeral.parseBounded UInt64.size (String.ofList (reversed.takeWhile Char.isDigit).reverse)).isOk then
    match reversed.dropWhile Char.isDigit with
    | ' ' :: rest => if word.reverse <+: rest then some (rest.drop word.length) else none
    | _ => none
  else none

def lineWord : List Char := " at line".toList

def columnWord : List Char := " column".toList

/-- what stands before the position clause, if the text ends in one -/
def stem? (cs : List Char) : Option (List Char) :=
  ((beforeNumber columnWord cs.reverse).bind (beforeNumber lineWord)).map List.reverse

/-- the text without a position clause at its end -/
def withoutPosition (s : String) : String :=
  match stem? s.toList with
  | some cs => String.ofList cs
  | none => s

/-! ## Laws -/

theorem beforeNumber_eq_some_iff {word cs t : List Char} :
    beforeNumber word cs = some t ↔ ∃ ds, IsWord ds ∧ cs = ds.reverse ++ ' ' :: (word.reverse ++ t) := by
  constructor
  · intro h
    simp only [beforeNumber] at h
    split at h
    · rename_i hw
      split at h
      · rename_i rest hrest
        split at h
        · rename_i hp
          obtain ⟨u, rfl⟩ := hp
          obtain rfl : u = t := by simpa using h
          refine ⟨(cs.takeWhile Char.isDigit).reverse, ⟨fun c hc => ?_, hw⟩, ?_⟩
          · exact List.all_eq_true.1 List.all_takeWhile c (List.mem_reverse.1 hc)
          · rw [List.reverse_reverse, ← hrest, List.takeWhile_append_dropWhile]
        · cases h
      · cases h
    · cases h
  · rintro ⟨ds, ⟨hd, hw⟩, rfl⟩
    have hr : ∀ c ∈ ds.reverse, c.isDigit = true := fun c hc => hd c (List.mem_reverse.1 hc)
    simp only [beforeNumber, List.takeWhile_append_of_pos hr, List.dropWhile_append_of_pos hr]
    simp [show Char.isDigit ' ' = false from rfl, hw]

theorem stem?_eq_some_iff {cs t : List Char} :
    stem? cs = some t ↔ ∃ line column, IsWord line ∧ IsWord column ∧
      cs = t ++ lineWord ++ ' ' :: line ++ columnWord ++ ' ' :: column := by
  simp only [stem?, Option.map_eq_some_iff, Option.bind_eq_some_iff, beforeNumber_eq_some_iff]
  constructor
  · rintro ⟨u, ⟨v, ⟨column, hc, h⟩, line, hl, rfl⟩, rfl⟩
    refine ⟨line, column, hl, hc, ?_⟩
    rw [← List.reverse_reverse cs, h]
    simp
  · rintro ⟨line, column, hl, hc, rfl⟩
    exact ⟨t.reverse, ⟨_, ⟨column, hc, by simp; rfl⟩, line, hl, by simp⟩, by simp⟩

example : withoutPosition "x at line 1 column 2 at line 3 column 4" = "x at line 1 column 2" := by decide +kernel
example : withoutPosition "x at line  column 4" = "x at line  column 4" := by decide +kernel
example : withoutPosition "x at line 1 column 18446744073709551616" = "x at line 1 column 18446744073709551616" := by
  decide +kernel

end ReplicatedOrders.Text

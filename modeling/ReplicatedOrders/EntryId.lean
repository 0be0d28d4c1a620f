/-
Entry ids: positions in a stream, a time in milliseconds and a sequence number within it, both of 64 bits.

The text of an id is `millis-seq`. Reading accepts a missing second part as zero and a leading `+` on either part. Ids
are ordered by time, then by sequence number.
- `lt_iff_rank`: the order is that of the numbers `millis · 2 ^ 64 + seq`.
-/
import ReplicatedOrders.Text.Numeral
import ReplicatedOrders.Text.Piece

namespace ReplicatedOrders

structure EntryId where
  millis : UInt64
  seq : UInt64
deriving DecidableEq, Repr, Inhabited

namespace EntryId

/-- the position before every entry -/
def zero : EntryId := ⟨0, 0⟩

/-! ## Order -/

instance : LT EntryId := ⟨fun a b => a.millis < b.millis ∨ (a.millis = b.millis ∧ a.seq < b.seq)⟩

instance (a b : EntryId) : Decidable (a < b) :=
  inferInstanceAs (Decidable (a.millis < b.millis ∨ (a.millis = b.millis ∧ a.seq < b.seq)))

/-- the later of two ids -/
instance : Max EntryId := ⟨fun a b => if a < b then b else a⟩

/-- both parts as one number -/
def rank (id : EntryId) : Nat := id.millis.toNat * UInt64.size + id.seq.toNat

theorem lt_iff_rank (a b : EntryId) : a < b ↔ a.rank < b.rank := by
  have ha := a.seq.toNat_lt
  have hb := b.seq.toNat_lt
  show (a.millis < b.millis ∨ (a.millis = b.millis ∧ a.seq < b.seq)) ↔ _
  simp only [rank, UInt64.size, UInt64.lt_iff_toNat_lt, ← UInt64.toNat_inj]
  omega

def order (a b : EntryId) : Ordering := if a < b then .lt else if a = b then .eq else .gt

/-! ## Text -/

def text (id : EntryId) : String := toString id.millis.toNat ++ "-" ++ toString id.seq.toNat

/-- one part of an id -/
def parsePart (cs : List Char) : Option UInt64 :=
  match Numeral.parseBounded UInt64.size (String.ofList cs) with
  | .ok n => some (UInt64.ofNat n)
  | .error _ => none

def parse? (text : String) : Option EntryId :=
  match Text.cutAt '-' text.toList with
  | (m, none) => do return ⟨← parsePart m, 0⟩
  | (m, some s) => do return ⟨← parsePart m, ← parsePart s⟩

example : parse? "+1-007" = some ⟨1, 7⟩ := by decide

end EntryId

end ReplicatedOrders

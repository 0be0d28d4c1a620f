/-
Waiting: the only way in which time passes. A single wait lasts thirty years at most, however long it was meant to be.
-/
namespace ReplicatedOrders.Wait

/-- thirty years of 365 days, in milliseconds -/
def longest : Nat := 30 * 365 * 24 * 60 * 60 * 1000

/-- how long a wait lasts that is meant to last so many milliseconds -/
def lasting (ms : Nat) : Nat := min ms longest

theorem lasting_of_le {ms : Nat} (h : ms ≤ longest) : lasting ms = ms := Nat.min_eq_left h

theorem lasting_le (ms : Nat) : lasting ms ≤ longest := Nat.min_le_right ms longest

end ReplicatedOrders.Wait

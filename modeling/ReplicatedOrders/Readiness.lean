/-
Readiness: a service is asked at fixed intervals until it answers.
-/
import ReplicatedOrders.Wait

namespace ReplicatedOrders

/-- how long a service kept others waiting -/
structure Readiness where
  failures : Nat := 0
  /-- time passed in milliseconds -/
  elapsed : Nat := 0
deriving DecidableEq, Repr

namespace Readiness

/-- ask with these results one after the other, up to the first that is no failure; every failure is followed by an
interval -/
def wait {ε : Type} (interval : Nat) : Readiness → List (Except ε Unit) → Readiness
  | r, .error _ :: results => wait interval ⟨r.failures + 1, r.elapsed + Wait.lasting interval⟩ results
  | r, _ => r

end Readiness

end ReplicatedOrders

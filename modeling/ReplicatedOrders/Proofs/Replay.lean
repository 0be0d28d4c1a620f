/-
Replay: what a run of the consumer leaves in the store, read off the log as a whole.

An entry is accepted if its id is greater than the first cursor and than every id before it in the log; redelivered and
reordered entries are not. Only the accepted entries that delete or upsert a hash matter to the order of that hash.
- `produced?_acceptAll`: the first half of an order is a fold over the accepted entries.
- `isSome_restateAll`, `data_restateAll`, `bookName_restateAll`: that fold in closed form, by the last entries of a
  kind.
- `processEach_replay`: the closed form for a run with any replies of the sources and any faults of the streams.
-/
import ReplicatedOrders.Proofs.Payload
import ReplicatedOrders.Proofs.Sections

namespace ReplicatedOrders

open Json

/-! ## Which entries matter -/

namespace LogEntry

def deletes (hash : String) (e : LogEntry) : Bool :=
  match e.action? with
  | some (.delete h) => h = hash
  | _ => false

def upserts (hash : String) (e : LogEntry) : Bool :=
  match e.action? with
  | some (.upsert h _ _) => h = hash
  | _ => false

theorem deletes_iff {hash : String} {e : LogEntry} : e.deletes hash = true ↔ e.action? = some (.delete hash) := by
  unfold deletes
  cases e.action? with
  | none => simp
  | some a => cases a <;> simp

/-- ahead of the cursor `c` and of every entry before it -/
def IsFresh (c : EntryId) (before : List LogEntry) (e : LogEntry) : Prop := c < e.id ∧ ∀ b ∈ before, b.id < e.id

instance (c : EntryId) (before : List LogEntry) (e : LogEntry) : Decidable (e.IsFresh c before) :=
  inferInstanceAs (Decidable (_ ∧ _))

/-- an entry deletes an order, or states it anew, or leaves it as it is -/
theorem restate_cases (hash : String) (e : LogEntry) :
    (e.deletes hash = true ∧ e.upserts hash = false ∧ ∀ p, e.restate hash p = none) ∨
    (e.deletes hash = false ∧ e.upserts hash = true ∧ ∃ data, e.carriedData? = some data ∧
      ∀ p, e.restate hash p = some ⟨e.carriedName?.getD (p.elim "" Produced.bookName), data⟩) ∨
    (e.deletes hash = false ∧ e.upserts hash = false ∧ ∀ p, e.restate hash p = p) := by
  unfold deletes upserts restate
  cases ha : e.action? with
  | none => exact Or.inr (Or.inr ⟨rfl, rfl, fun _ => rfl⟩)
  | some a =>
    cases a with
    | delete h =>
      by_cases hk : h = hash
      · simp [hk]
      · simp [hk]
    | upsert h bookName data =>
      obtain ⟨hn, hd⟩ := carried_of_upsert ha
      by_cases hk : h = hash
      · simp [hk, hn, hd]
      · simp [hk]
    | skip h => exact Or.inr (Or.inr ⟨rfl, rfl, fun _ => rfl⟩)

end LogEntry

/-! ## Accepted entries -/

/-- the accepted ones among entries that come after others -/
def acceptedAfter (c : EntryId) : List LogEntry → List LogEntry → List LogEntry
  | _, [] => []
  | before, e :: es =>
    if e.IsFresh c before then e :: acceptedAfter c (before ++ [e]) es else acceptedAfter c (before ++ [e]) es

/-- the entries of a log that a consumer at the cursor `c` accepts -/
def accepted (c : EntryId) (es : List LogEntry) : List LogEntry := acceptedAfter c [] es

theorem acceptedAfter_snoc (c : EntryId) (before es : List LogEntry) (e : LogEntry) :
    acceptedAfter c before (es ++ [e]) =
      acceptedAfter c before es ++ if e.IsFresh c (before ++ es) then [e] else [] := by
  induction es generalizing before with
  | nil => simp [acceptedAfter]
  | cons d es ih =>
    simp only [List.cons_append, acceptedAfter, ih, List.append_assoc, List.nil_append]
    split <;> simp

theorem accepted_snoc (c : EntryId) (es : List LogEntry) (e : LogEntry) :
    accepted c (es ++ [e]) = accepted c es ++ if e.IsFresh c es then [e] else [] :=
  acceptedAfter_snoc c [] es e

/-- the running cursor tells whether an entry is ahead of everything before it -/
theorem cursor_lt_iff_isFresh (s : Store) (es : List LogEntry) (e : LogEntry) :
    (s.acceptAll es).cursor < e.id ↔ e.IsFresh s.cursor es :=
  s.cursor_acceptAll_lt_iff es e.id

/-! ## The fold over accepted entries -/

/-- what producers said of the order of a hash after accepted entries -/
def restateAll (hash : String) (p : Option Produced) (es : List LogEntry) : Option Produced :=
  es.foldl (fun p e => e.restate hash p) p

theorem restateAll_snoc (hash : String) (p : Option Produced) (es : List LogEntry) (e : LogEntry) :
    restateAll hash p (es ++ [e]) = e.restate hash (restateAll hash p es) := by
  simp [restateAll, List.foldl_append]

/-- stale entries drop out: only accepted entries are folded -/
theorem produced?_acceptAll (s : Store) (es : List LogEntry) (hash : String) :
    (s.acceptAll es).produced? hash = restateAll hash (s.produced? hash) (accepted s.cursor es) := by
  induction es using List.reverseRecOn with
  | nil => rfl
  | append_singleton es e ih =>
    rw [Store.acceptAll_snoc, Store.produced?_accept, accepted_snoc, ih]
    by_cases h : e.IsFresh s.cursor es
    · rw [if_pos ((cursor_lt_iff_isFresh s es e).2 h), if_pos h, restateAll_snoc]
    · rw [if_neg (mt (cursor_lt_iff_isFresh s es e).1 h), if_neg h, List.append_nil]

/-- the entries after the last one with a property; all of them if none has it -/
def sinceLast (p : LogEntry → Bool) (es : List LogEntry) : List LogEntry :=
  (es.reverse.takeWhile fun e => !p e).reverse

theorem sinceLast_snoc (p : LogEntry → Bool) (es : List LogEntry) (e : LogEntry) :
    sinceLast p (es ++ [e]) = if p e then [] else sinceLast p es ++ [e] := by
  cases h : p e <;> simp [sinceLast, h]

section ClosedForm

variable (hash : String) (p : Option Produced) (es : List LogEntry)

/-- an order stands if the last entry that deletes or upserts it is an upsert, or if it stood and there is none -/
def isStanding : Bool :=
  match (es.filter fun e => e.deletes hash || e.upserts hash).getLast? with
  | some e => e.upserts hash
  | none => p.isSome

/-- the data of the last upsert, or what was there before -/
def standingData : Option Value :=
  match (es.filter fun e => e.upserts hash).getLast? with
  | some e => e.carriedData?
  | none => p.map Produced.offChainData

/-- the last name that an upsert carried since the last deletion; else what was there before, unless it was deleted -/
def standingName : String :=
  match (((sinceLast (·.deletes hash) es).filter fun e => e.upserts hash).filterMap LogEntry.carriedName?).getLast? with
  | some name => name
  | none => if es.any (·.deletes hash) then "" else p.elim "" Produced.bookName

theorem isSome_restateAll : (restateAll hash p es).isSome = isStanding hash p es := by
  unfold isStanding
  induction es using List.reverseRecOn with
  | nil => rfl
  | append_singleton es e ih =>
    rw [restateAll_snoc, List.filter_append]
    rcases e.restate_cases hash with ⟨hd, hu, hr⟩ | ⟨hd, hu, data, -, hr⟩ | ⟨hd, hu, hr⟩
    · simp [hd, hu, hr]
    · simp [hd, hu, hr]
    · simp [hd, hu, hr, ih]

theorem data_restateAll {q : Produced} (h : restateAll hash p es = some q) :
    some q.offChainData = standingData hash p es := by
  unfold standingData
  induction es using List.reverseRecOn generalizing q with
  | nil =>
    have hp : p = some q := h
    simp [hp]
  | append_singleton es e ih =>
    rw [restateAll_snoc] at h
    rw [List.filter_append]
    rcases e.restate_cases hash with ⟨-, -, hr⟩ | ⟨-, hu, data, hdata, hr⟩ | ⟨-, hu, hr⟩
    · simp [hr] at h
    · rw [hr, Option.some.injEq] at h
      subst h
      simp [hu, hdata]
    · rw [hr] at h
      simpa [hu] using ih h

theorem bookName_restateAll {q : Produced} (h : restateAll hash p es = some q) :
    q.bookName = standingName hash p es := by
  -- the name that an upsert keeps is that of an order that may be gone, so the induction is on its default too
  suffices hn : (restateAll hash p es).elim "" Produced.bookName = standingName hash p es by
    rw [h] at hn
    exact hn
  clear h
  unfold standingName
  induction es using List.reverseRecOn with
  | nil => rfl
  | append_singleton es e ih =>
    rw [restateAll_snoc, sinceLast_snoc]
    rcases e.restate_cases hash with ⟨hd, -, hr⟩ | ⟨hd, hu, data, -, hr⟩ | ⟨hd, hu, hr⟩
    · simp [hd, hr]
    · cases hc : e.carriedName? with
      | none => simpa [hd, hu, hr, hc] using ih
      | some name => simp [hd, hu, hr, hc]
    · simpa [hd, hu, hr] using ih

end ClosedForm

/-! ## Runs -/

namespace Replica

/-- entries one after the other, each with the sources as they answer at that time -/
def processEach (r : Replica) (steps : List (Registry × LogEntry)) : Replica :=
  steps.foldl (fun r p => r.process p.1 p.2) r

theorem processEach_snoc (r : Replica) (steps : List (Registry × LogEntry)) (p : Registry × LogEntry) :
    r.processEach (steps ++ [p]) = (r.processEach steps).process p.1 p.2 := by
  simp [processEach, List.foldl_append]

/-- for what producers said, a run is the sections of its entries -/
theorem processEach_agree (r : Replica) (steps : List (Registry × LogEntry)) (hq : ∀ p ∈ steps, p.1.Quiet) :
    (r.processEach steps).store.Agree (r.store.acceptAll (steps.map Prod.snd)) := by
  induction steps using List.reverseRecOn with
  | nil => exact Store.Agree.refl _
  | append_singleton steps p ih =>
    rw [processEach_snoc, List.map_append, List.map_singleton, Store.acceptAll_snoc]
    have hrun := ih fun q hqm => hq q (List.mem_append_left _ hqm)
    exact (process_agree (hq p (by simp)) _ p.2).trans (hrun.accept p.2)

end Replica

/-- **Replay.** After any log, with any replies and faults on the way, the cursor is the greatest of all ids, and for
every hash: the order stands exactly if the accepted entries leave it standing, its data is that of the last accepted
upsert, and its name is the last one carried since it was last deleted. -/
theorem processEach_replay (r : Replica) (steps : List (Registry × LogEntry)) (hq : ∀ p ∈ steps, p.1.Quiet) :
    let s := (r.processEach steps).store
    let es := accepted r.store.cursor (steps.map Prod.snd)
    s.cursor = (steps.map fun p => p.2.id).foldl max r.store.cursor ∧ ∀ hash,
      (s.get? hash).isSome = isStanding hash (r.store.produced? hash) es ∧
      ∀ o, s.get? hash = some o →
        some o.offChainData = standingData hash (r.store.produced? hash) es ∧
          o.bookName = standingName hash (r.store.produced? hash) es := by
  intro s es
  have hrun := r.processEach_agree steps hq
  have hfold : ∀ hash, s.produced? hash = restateAll hash (r.store.produced? hash) es := by
    intro hash
    exact (hrun.produced hash).trans (produced?_acceptAll _ _ _)
  refine ⟨?_, fun hash => ⟨?_, fun o ho => ?_⟩⟩
  · rw [hrun.cursor, Store.cursor_acceptAll, List.map_map]
    rfl
  · rw [← isSome_restateAll, ← hfold hash, Store.produced?, Option.isSome_map]
  · have hq : restateAll hash (r.store.produced? hash) es = some o.produced := by
      rw [← hfold hash, Store.produced?, ho]
      rfl
    exact ⟨data_restateAll hash _ es hq, bookName_restateAll hash _ es hq⟩

/-- an upsert with a name, an entry without payload, a deletion that comes too late, an upsert without a name -/
def redelivered : List (Registry × LogEntry) :=
  [(answering ⟨.null, 1, 2⟩,
      ⟨⟨1, 0⟩, some "\x7b\"orderHash\":\"a\",\"orderBookName\":\"F1\",\"offChainData\":1\x7d"⟩),
    (∅, ⟨⟨3, 0⟩, none⟩), (∅, ⟨⟨2, 0⟩, some "\x7b\"orderHash\":\"a\",\"deleted\":true\x7d"⟩),
    (∅, ⟨⟨4, 0⟩, some "\x7b\"orderHash\":\"a\",\"offChainData\":[2]\x7d"⟩)]

theorem processEach_replay_redelivered :
    (∀ p ∈ redelivered, p.1.Quiet) ∧
      let s := (({} : Replica).processEach redelivered).store
      s.cursor = ⟨4, 0⟩ ∧ (s.get? "a").isSome = true ∧
        ∀ o, s.get? "a" = some o → o.offChainData.compact = "[\"2\"]" ∧ o.bookName = "F1" := by
  have hq : ∀ p ∈ redelivered, p.1.Quiet := by
    simp [redelivered, answering_quiet, Registry.quiet_empty]
  have hp : ({} : Replica).store.produced? "a" = none := by simp [Store.produced?]
  obtain ⟨hc, h⟩ := processEach_replay {} redelivered hq
  obtain ⟨hs, ho⟩ := h "a"
  rw [hp] at hs ho
  refine ⟨hq, hc, hs.trans (by decide +kernel), fun o hget => ?_⟩
  obtain ⟨hdata, hname⟩ := ho o hget
  have hd : (standingData "a" none (accepted .zero (redelivered.map Prod.snd))).map Value.compact = some "[\"2\"]" := by
    decide +kernel
  rw [← hdata] at hd
  exact ⟨Option.some.inj hd, hname.trans (by decide +kernel)⟩

end ReplicatedOrders

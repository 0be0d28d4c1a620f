/-
Critical sections: what each of them does to the orders, to the cursor, and to what producers said of an order.

An order has two halves. One half comes from the update stream (`Produced`: family and off-chain data), the other half
is on-chain data, and only enrichment writes it. Two stores agree (`Store.Agree`) if they have the same cursor and the
same first halves.
- `accept_store`, `get?_accept`, `cursor_accept`: the section of an entry, hash by hash.
- `enrich_cases`: an attempt at enrichment leaves the store as it is, or it is one merge of what a source replied.
- `Agree.accept`, `process_agree`: the section of an entry keeps agreement, and what follows it changes nothing of it.
- `publish_cases`: an image leaves the store alone and adds at most one line to its stream.
-/
import Mathlib.Tactic
import ReplicatedOrders.Replica.Archive
import ReplicatedOrders.Replica.Intake

namespace ReplicatedOrders

/-! ## Order of ids -/

namespace EntryId

theorem rank_injective {a b : EntryId} (h : a.rank = b.rank) : a = b := by
  obtain ⟨ams, aseq⟩ := a
  obtain ⟨bms, bseq⟩ := b
  have ha := aseq.toNat_lt
  have hb := bseq.toNat_lt
  simp only [rank, UInt64.size] at h
  rw [mk.injEq, ← UInt64.toNat_inj, ← UInt64.toNat_inj]
  omega

theorem rank_max (a b : EntryId) : (max a b).rank = max a.rank b.rank := by
  show (if a < b then b else a).rank = _
  split
  · next h => rw [lt_iff_rank] at h; omega
  · next h => rw [lt_iff_rank] at h; omega

theorem max_lt_iff {a b c : EntryId} : max a b < c ↔ a < c ∧ b < c := by
  simp only [lt_iff_rank, rank_max]
  omega

/-- an id is ahead of the greatest of some ids if it is ahead of all of them -/
theorem foldl_max_lt_iff (c : EntryId) (ids : List EntryId) (id : EntryId) :
    ids.foldl max c < id ↔ c < id ∧ ∀ i ∈ ids, i < id := by
  induction ids generalizing c with
  | nil => simp
  | cons i ids ih => simp only [List.foldl_cons, ih, max_lt_iff, List.forall_mem_cons, and_assoc]

theorem lt_irrefl (a : EntryId) : ¬ a < a := by
  rw [lt_iff_rank]
  omega

theorem max_eq_right {a b : EntryId} (h : a < b) : max a b = b := if_pos h

theorem max_eq_left {a b : EntryId} (h : ¬ a < b) : max a b = a := if_neg h

end EntryId

/-! ## What an entry does to the order of a hash -/

/-- the order of `key` after an action, from the order before it -/
def Action.on (key : String) (a : Action) (o : Option Order) : Option Order :=
  match a with
  | .delete hash => if hash = key then none else o
  | .upsert hash bookName data => if hash = key then some (Store.rewrite bookName data (o.getD { hash })) else o
  | .skip _ => o

/-- the order of `key` after an accepted entry -/
def LogEntry.on (key : String) (e : LogEntry) (o : Option Order) : Option Order :=
  match e.action? with
  | some a => a.on key o
  | none => o

namespace Store

/-- the critical section of an entry, as far as it concerns the store -/
def accept (s : Store) (e : LogEntry) : Store :=
  match e.action? with
  | none => (s.advance e.id).1
  | some a => (s.apply e.id a).1

/-- the sections of entries one after the other -/
def acceptAll (s : Store) (es : List LogEntry) : Store := es.foldl accept s

@[simp] theorem acceptAll_nil (s : Store) : s.acceptAll [] = s := rfl

theorem acceptAll_snoc (s : Store) (es : List LogEntry) (e : LogEntry) :
    s.acceptAll (es ++ [e]) = (s.acceptAll es).accept e := by
  simp [acceptAll, List.foldl_append]

theorem advance_stale {s : Store} {id : EntryId} (h : ¬ s.cursor < id) : s.advance id = (s, false) := by
  rw [advance, if_neg h]

theorem advance_fresh {s : Store} {id : EntryId} (h : s.cursor < id) :
    s.advance id = ({ s with cursor := id }, true) := by
  rw [advance, if_pos h]

theorem apply_stale {s : Store} {id : EntryId} (h : ¬ s.cursor < id) (a : Action) : s.apply id a = (s, .stale) := by
  simp [apply, advance_stale h]

/-- the order of a hash after an action whose entry is ahead of the cursor -/
theorem get?_apply_fresh {s : Store} {id : EntryId} (h : s.cursor < id) (a : Action) (key : String) :
    (s.apply id a).1.get? key = a.on key (s.get? key) := by
  cases a with
  | delete hash =>
    simp only [apply, advance_fresh h, Action.on]
    split
    · exact getElem?_erase _ _ _
    · next hs =>
      split
      · next hk => rw [← hk]; exact hs
      · rfl
  | upsert hash bookName data =>
    simp only [apply, advance_fresh h, Action.on]
    refine (getElem?_insert _ _ _ _).trans ?_
    split
    · next hk => rw [← hk]; rfl
    · rfl
  | skip hash => simp only [apply, advance_fresh h, Action.on]; rfl

theorem cursor_apply (s : Store) (id : EntryId) (a : Action) : (s.apply id a).1.cursor = max s.cursor id := by
  by_cases h : s.cursor < id
  · rw [EntryId.max_eq_right h]
    cases a with
    | delete hash => simp only [apply, advance_fresh h]; split <;> rfl
    | upsert hash bookName data => simp only [apply, advance_fresh h]
    | skip hash => simp only [apply, advance_fresh h]
  · rw [EntryId.max_eq_left h, apply_stale h]

/-- An accepted entry does its action, a stale one nothing. -/
theorem get?_accept (s : Store) (e : LogEntry) (key : String) :
    (s.accept e).get? key = if s.cursor < e.id then e.on key (s.get? key) else s.get? key := by
  unfold accept LogEntry.on
  cases e.action? with
  | none => simp
  | some a =>
    by_cases h : s.cursor < e.id
    · rw [if_pos h]; exact get?_apply_fresh h a key
    · rw [if_neg h]; exact congrArg (·.1.get? key) (apply_stale h a)

theorem cursor_accept (s : Store) (e : LogEntry) : (s.accept e).cursor = max s.cursor e.id := by
  unfold accept
  cases e.action? with
  | none => exact cursor_advance s e.id
  | some a => exact cursor_apply s e.id a

theorem cursor_acceptAll (s : Store) (es : List LogEntry) :
    (s.acceptAll es).cursor = (es.map LogEntry.id).foldl max s.cursor := by
  induction es generalizing s with
  | nil => rfl
  | cons e es ih => exact (ih (s.accept e)).trans (by rw [cursor_accept]; rfl)

/-- an id is ahead of the cursor after a log if it is ahead of the first cursor and of the whole log -/
theorem cursor_acceptAll_lt_iff (s : Store) (es : List LogEntry) (id : EntryId) :
    (s.acceptAll es).cursor < id ↔ s.cursor < id ∧ ∀ e ∈ es, e.id < id := by
  rw [cursor_acceptAll, EntryId.foldl_max_lt_iff, List.forall_mem_map]

end Store

/-- the section of an entry does to the store what `Store.accept` does -/
theorem Replica.accept_store (r : Replica) (e : LogEntry) : (r.accept e).1.store = r.store.accept e := by
  unfold Replica.accept Store.accept
  cases e.action? with
  | none => dsimp only; split <;> simp_all
  | some a => dsimp only; split <;> simp_all

/-- the section of an entry asks for enrichment only after an upsert -/
theorem Replica.accept_logs (r : Replica) (e : LogEntry) :
    (r.accept e).1.updates = r.updates ∧ (r.accept e).1.snapshots = r.snapshots ∧ (r.accept e).1.asked = r.asked := by
  unfold Replica.accept
  cases e.action? with
  | none => dsimp only; split <;> exact ⟨rfl, rfl, rfl⟩
  | some a => dsimp only; split <;> exact ⟨rfl, rfl, rfl⟩

/-! ## The half that comes from the update stream -/

/-- what producers said of an order -/
structure Produced where
  bookName : String
  offChainData : Json.Value

def Order.produced (o : Order) : Produced := ⟨o.bookName, o.offChainData⟩

/-- what producers said of the order of a hash, if it is there -/
def Store.produced? (s : Store) (hash : String) : Option Produced := (s.get? hash).map Order.produced

/-- what producers said of the order of `key` after an accepted entry -/
def LogEntry.restate (key : String) (e : LogEntry) (p : Option Produced) : Option Produced :=
  match e.action? with
  | some (.delete hash) => if hash = key then none else p
  | some (.upsert hash bookName data) =>
    if hash = key then some ⟨bookName.getD (p.elim "" Produced.bookName), data⟩ else p
  | _ => p

theorem LogEntry.map_produced_on (key : String) (e : LogEntry) (o : Option Order) :
    (e.on key o).map Order.produced = e.restate key (o.map Order.produced) := by
  unfold LogEntry.on LogEntry.restate
  cases e.action? with
  | none => rfl
  | some a =>
    cases a with
    | delete hash => dsimp only [Action.on]; split <;> rfl
    | upsert hash bookName data =>
      dsimp only [Action.on]
      split
      · cases o <;> rfl
      · rfl
    | skip hash => rfl

theorem Store.produced?_accept (s : Store) (e : LogEntry) (key : String) :
    (s.accept e).produced? key = if s.cursor < e.id then e.restate key (s.produced? key) else s.produced? key := by
  unfold produced?
  rw [get?_accept]
  split
  · exact e.map_produced_on key _
  · rfl

/-- merging on-chain data is nothing that producers said -/
theorem Store.produced?_merge (s : Store) (hash key : String) (data : OnChainData) :
    (s.merge hash data).1.produced? key = s.produced? key := by
  unfold produced?
  rw [get?_merge]
  split
  · next h => rw [← h]; cases s.get? hash <;> rfl
  · rfl

theorem Store.cursor_merge (s : Store) (hash : String) (data : OnChainData) :
    (s.merge hash data).1.cursor = s.cursor := by
  unfold merge
  split <;> rfl

/-- a merge into an order that is there is counted -/
theorem Store.totals_merge {s : Store} {hash : String} {o : Order} (h : s.get? hash = some o) (data : OnChainData) :
    (s.merge hash data).1.totals = { s.totals with enrichments := s.totals.enrichments + 1 } := by
  rw [merge, h]

/-! ## Agreement -/

/-- same cursor, and producers said the same of every order -/
structure Store.Agree (s t : Store) : Prop where
  cursor : s.cursor = t.cursor
  produced : ∀ hash, s.produced? hash = t.produced? hash

namespace Store.Agree

variable {s t u : Store}

theorem refl (s : Store) : s.Agree s := ⟨rfl, fun _ => rfl⟩

theorem trans (h : s.Agree t) (h' : t.Agree u) : s.Agree u :=
  ⟨h.cursor.trans h'.cursor, fun hash => (h.produced hash).trans (h'.produced hash)⟩

theorem accept (h : s.Agree t) (e : LogEntry) : (s.accept e).Agree (t.accept e) := by
  refine ⟨?_, fun hash => ?_⟩
  · rw [cursor_accept, cursor_accept, h.cursor]
  · rw [produced?_accept, produced?_accept, h.cursor, h.produced]

theorem merge (s : Store) (hash : String) (data : OnChainData) : (s.merge hash data).1.Agree s :=
  ⟨s.cursor_merge hash data, fun key => s.produced?_merge hash key data⟩

end Store.Agree

/-! ## Attempts at enrichment -/

/-- no source writes to the store while it looks something up -/
def Registry.Quiet (g : Registry) : Prop :=
  ∀ (family : String) (source : Source), g[family]? = some source → ∀ o, (source o).writes = []

theorem Registry.quiet_empty : Registry.Quiet ∅ := by
  intro family source h
  simp at h

/-- sources that answer at once for the family `F1` -/
def answering (data : OnChainData) : Registry := Registry.register ∅ "F1" fun _ => { reply := .ok data }

theorem source_answering {data : OnChainData} {family : String} {source : Source}
    (h : (answering data)[family]? = some source) (o : Order) : source o = { reply := .ok data } := by
  simp only [answering, Registry.register, Std.ExtTreeMap.getElem?_insert] at h
  split at h
  · cases h; rfl
  · simp at h

theorem answering_quiet (data : OnChainData) : (answering data).Quiet := by
  intro family source h o
  rw [source_answering h]

theorem eq_ok_of_toOption {ε α : Type} {res : Except ε α} {a : α} (h : res.toOption = some a) : res = .ok a := by
  cases res with
  | error e => cases h
  | ok b => exact congrArg Except.ok (Option.some.inj h)

/-- an upsert of an order of `F1` -/
def LogEntry.placing (id : EntryId) : LogEntry :=
  ⟨id, some "\x7b\"orderHash\":\"a\",\"orderBookName\":\"F1\",\"offChainData\":1\x7d"⟩

namespace Replica

theorem ask_store (g : Registry) (r : Replica) (o : Order) :
    (r.ask g o).1.store = r.store ∧ (r.ask g o).1.snapshots = r.snapshots ∧ (r.ask g o).1.updates = r.updates := by
  unfold ask
  split
  · exact ⟨rfl, rfl, rfl⟩
  · split <;> exact ⟨rfl, rfl, rfl⟩

theorem ask_writes {g : Registry} (hg : g.Quiet) (r : Replica) (o : Order) : (r.ask g o).2.writes = [] := by
  unfold ask
  split
  · rfl
  · split
    · rfl
    · next source h => exact hg _ source h o

/-- a reply with data comes from the source of the order's family, and only off-chain data makes it possible -/
theorem ask_reply {g : Registry} {r : Replica} {o : Order} {data : OnChainData} (h : (r.ask g o).2.reply = .ok data) :
    o.hasOffChainData = true ∧ ∃ source, g[o.bookName]? = some source ∧ (source o).reply = .ok data := by
  unfold ask at h
  cases ho : o.hasOffChainData with
  | false => simp [ho] at h
  | true =>
    simp only [ho, Bool.not_true, Bool.false_eq_true, if_false] at h
    cases hs : g[o.bookName]? with
    | none => rw [hs] at h; simp at h
    | some source => rw [hs] at h; exact ⟨rfl, source, rfl, h⟩

theorem merge_store (r : Replica) (hash : String) (data : OnChainData) :
    (r.merge hash data).1.store = (r.store.merge hash data).1 ∧ (r.merge hash data).1.snapshots = r.snapshots ∧
      (r.merge hash data).2 = (r.store.merge hash data).2 := by
  unfold merge
  split <;> simp_all

theorem settle_store (r : Replica) (hash : String) (reply : Except ReplicaError OnChainData) :
    (r.settle hash reply).1.snapshots = r.snapshots ∧
      ((r.settle hash reply).1.store = r.store ∨
        ∃ data, reply = .ok data ∧ (r.settle hash reply).1.store = (r.store.merge hash data).1) := by
  cases reply with
  | error e => exact ⟨rfl, Or.inl rfl⟩
  | ok data =>
    obtain ⟨hs, hl, -⟩ := r.merge_store hash data
    simp only [settle]
    split <;> rename_i heq <;> rw [heq] at hs hl <;> exact ⟨hl, Or.inr ⟨data, rfl, hs⟩⟩

/-- **An attempt does nothing to the store or merges one reply.** The reply then comes from the source of the order's
family, which was asked about the order as it stands under the hash, with off-chain data and not enriched. -/
theorem enrich_cases {g : Registry} (hg : g.Quiet) (r : Replica) (hash : String) :
    (r.enrich g hash).1.snapshots = r.snapshots ∧
      ((r.enrich g hash).1.store = r.store ∨
        ∃ o source data, r.store.get? hash = some o ∧ o.isEnriched = false ∧ o.hasOffChainData = true ∧
          g[o.bookName]? = some source ∧ (source o).reply = .ok data ∧
          (r.enrich g hash).1.store = (r.store.merge hash data).1) := by
  unfold enrich Store.lookup
  cases ho : r.store.get? hash with
  | none => exact ⟨rfl, Or.inl rfl⟩
  | some o =>
    cases he : o.isEnriched with
    | true => simp [he]
    | false =>
      simp only [he, Bool.false_eq_true, if_false]
      obtain ⟨hst, hsn, -⟩ := r.ask_store g o
      have hw := ask_writes hg r o
      generalize hf : r.ask g o = p at hst hsn hw
      obtain ⟨r', fetched⟩ := p
      simp only at hst hsn hw
      simp only [hw, List.foldl_nil]
      obtain ⟨h1, h2⟩ := r'.settle_store hash fetched.reply
      refine ⟨h1.trans hsn, ?_⟩
      rcases h2 with h2 | ⟨data, hd, h2⟩
      · exact Or.inl (h2.trans hst)
      · have hr : (r.ask g o).2.reply = .ok data := by rw [hf]; exact hd
        obtain ⟨hoff, source, hsrc, hrep⟩ := ask_reply hr
        exact Or.inr ⟨o, source, data, rfl, he, hoff, hsrc, hrep, by rw [h2, hst]⟩

theorem enrich_agree {g : Registry} (hg : g.Quiet) (r : Replica) (hash : String) :
    (r.enrich g hash).1.store.Agree r.store := by
  rcases (enrich_cases hg r hash).2 with h | ⟨o, source, data, -, -, -, -, -, h⟩
  · rw [h]; exact Store.Agree.refl _
  · rw [h]; exact Store.Agree.merge _ _ _

/-- processing an entry is its section, and then possibly one attempt -/
theorem process_cases (g : Registry) (r : Replica) (e : LogEntry) :
    r.process g e = (r.accept e).1 ∨ ∃ hash, r.process g e = ((r.accept e).1.enrich g hash).1 := by
  unfold process
  split
  · next h => rw [h]; exact Or.inl rfl
  · next r' hash h => rw [h]; exact Or.inr ⟨hash, rfl⟩

/-- For what producers said, processing an entry is its section alone. -/
theorem process_agree {g : Registry} (hg : g.Quiet) (r : Replica) (e : LogEntry) :
    (r.process g e).store.Agree (r.store.accept e) := by
  rcases process_cases g r e with h | ⟨hash, h⟩
  · rw [h, accept_store]; exact Store.Agree.refl _
  · rw [h, ← accept_store]; exact enrich_agree hg _ hash

end Replica

/-! ## Appends and images -/

/-- a failed append adds nothing, and a successful one a line with its payload at the end -/
theorem Log.append_cases (l : Log) (payload : Option String) :
    (l.append payload).2 = .error appendFault ∧ (l.append payload).1.lines = l.lines ∨
      (l.append payload).2 = .ok l.nextId ∧ (l.append payload).1.lines = l.lines ++ [⟨⟨l.nextId, payload⟩, 0⟩] := by
  unfold append
  split
  · exact Or.inl ⟨rfl, rfl⟩
  · dsimp only
    split
    · exact Or.inl ⟨rfl, rfl⟩
    · exact Or.inr ⟨rfl, rfl⟩

/-- **An image leaves the store alone,** whether it gets into the stream or not. -/
theorem Replica.publish_cases (r : Replica) (createdAt : Int64) :
    (r.publish createdAt).1.store = r.store ∧
      ((r.publish createdAt).1.snapshots.lines = r.snapshots.lines ∨
        (r.publish createdAt).1.snapshots.lines = r.snapshots.lines ++
          [⟨⟨r.snapshots.nextId, some (r.store.snapshot createdAt).text⟩, 0⟩]) := by
  have h := r.snapshots.append_cases (some (r.store.snapshot createdAt).text)
  unfold publish
  generalize r.snapshots.append (some (r.store.snapshot createdAt).text) = p at h
  obtain ⟨l, res⟩ := p
  rcases h with ⟨rfl, hl⟩ | ⟨rfl, hl⟩
  · exact ⟨rfl, Or.inl hl⟩
  · exact ⟨rfl, Or.inr hl⟩

end ReplicatedOrders

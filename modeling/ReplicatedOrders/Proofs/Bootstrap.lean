/-
Bootstrap: a replica that starts from an image and reads on ends where the replica ends that wrote the image.

An image changes one thing: on-chain data that says nothing about an order is gone after reading it back. Stores that
differ in nothing else are alike, and every entry keeps them alike, because an attempt treats both kinds of order as
incomplete. Redelivered entries stand at or behind the cursor of the image and do nothing.
- `Store.Alike.step`, `Store.Alike.steps`: one entry and a run keep two stores alike.
- `Store.foldl_step_stale`: redelivered entries do nothing, in whatever order and however often they come.
- `Replica.image_of_publish`: the image that is decoded is the one that was published.
- `bootstrap_converges`: the two replicas end alike.
-/
import ReplicatedOrders.Proofs.Reload

namespace ReplicatedOrders

open Json

/-! ## Sources -/

namespace Registry

/-- what a source says of an order depends on the hash, the name and the off-chain data of the order alone -/
def Steady (g : Registry) : Prop :=
  ∀ (family : String) (source : Source), g[family]? = some source → ∀ o o' : Order,
    o.hash = o'.hash → o.bookName = o'.bookName → o.offChainData = o'.offChainData →
      (source o).reply = (source o').reply

/-- what the sources say of an order holds no real number -/
def Lossless (g : Registry) : Prop :=
  ∀ (family : String) (source : Source), g[family]? = some source → ∀ o data, (source o).reply = .ok data →
    data.orderInfo.Lossless

/-- the outcome of a lookup depends on no more of an order than the answer of its source does -/
theorem Steady.fetched {g : Registry} (h : g.Steady) {o o' : Order} (hh : o.hash = o'.hash)
    (hb : o.bookName = o'.bookName) (hd : o.offChainData = o'.offChainData) :
    (g.fetched o).reply = (g.fetched o').reply := by
  unfold Registry.fetched Replica.ask Order.hasOffChainData
  rw [hd]
  split
  · rw [hh]
  · rw [hb]
    split
    · rfl
    · next source hsource => exact h _ source hsource o o' hh hb hd

end Registry

/-! ## What an image changes -/

namespace Order

theorem restored_restored (o : Order) : o.restored.restored = o.restored := by
  simp only [restored, Option.filter_filter, Bool.and_self]

theorem isEnriched_restored (o : Order) : o.restored.isEnriched = o.isEnriched := by
  unfold isEnriched restored
  cases o.onChainData with
  | none => rfl
  | some d => cases h : d.orderInfo.isNull <;> simp [h]

/-- orders that an image makes equal differ in on-chain data only -/
theorem eq_of_restored {o o' : Order} (h : o.restored = o'.restored) :
    o.hash = o'.hash ∧ o.bookName = o'.bookName ∧ o.offChainData = o'.offChainData := by
  simp only [restored, mk.injEq] at h
  exact ⟨h.1, h.2.1, h.2.2.1⟩

theorem isEnriched_congr {o o' : Order} (h : o.restored = o'.restored) : o.isEnriched = o'.isEnriched := by
  rw [← isEnriched_restored o, h, isEnriched_restored]

end Order

/-- what an entry does to an order and what an image does to it can be exchanged -/
theorem LogEntry.map_restored_on (key : String) (e : LogEntry) (o : Option Order) :
    (e.on key o).map Order.restored = e.on key (o.map Order.restored) := by
  unfold LogEntry.on
  cases e.action? with
  | none => rfl
  | some a =>
    cases a with
    | delete hash => dsimp only [Action.on]; split <;> rfl
    | upsert hash bookName data =>
      dsimp only [Action.on]
      split
      · cases o <;> rfl
      · rfl
    | skip hash => rfl

/-! ## Alike stores -/

/-- same cursor and same orders, if on-chain data that says nothing counts as absent -/
structure Store.Alike (s t : Store) : Prop where
  cursor : s.cursor = t.cursor
  orders : ∀ hash, (s.get? hash).map Order.restored = (t.get? hash).map Order.restored

namespace Store.Alike

variable {s t : Store}

theorem accept (h : s.Alike t) (e : LogEntry) : (s.accept e).Alike (t.accept e) := by
  refine ⟨?_, fun hash => ?_⟩
  · rw [cursor_accept, cursor_accept, h.cursor]
  · rw [get?_accept, get?_accept, h.cursor]
    split
    · rw [LogEntry.map_restored_on, LogEntry.map_restored_on, h.orders]
    · exact h.orders hash

theorem merge (h : s.Alike t) (hash : String) (data : OnChainData) :
    (s.merge hash data).1.Alike (t.merge hash data).1 := by
  refine ⟨?_, fun key => ?_⟩
  · rw [cursor_merge, cursor_merge, h.cursor]
  · have hmerged : ∀ o : Option Order,
        (o.map fun o => { o with onChainData := some data }).map Order.restored =
          (o.map Order.restored).map fun o => Order.restored { o with onChainData := some data } := by
      intro o
      cases o <;> rfl
    rw [get?_merge, get?_merge]
    split
    · rw [hmerged, hmerged, h.orders]
    · exact h.orders key

/-- the order of a hash is missing in both stores, or incomplete in both, and a source says the same of it -/
theorem attempt {g : Registry} (hg : g.Steady) (h : s.Alike t) (hash : String) :
    (s.attempt g hash).Alike (t.attempt g hash) := by
  have hstands := h.orders hash
  unfold Store.attempt
  cases ho : s.get? hash with
  | none =>
    cases ho' : t.get? hash with
    | none => exact h
    | some o' => rw [ho, ho'] at hstands; cases hstands
  | some o =>
    cases ho' : t.get? hash with
    | none => rw [ho, ho'] at hstands; cases hstands
    | some o' =>
      rw [ho, ho', Option.map_some, Option.map_some, Option.some.injEq] at hstands
      obtain ⟨hh, hb, hd⟩ := Order.eq_of_restored hstands
      dsimp only
      rw [Order.isEnriched_congr hstands, hg.fetched hh hb hd]
      split
      · exact h
      · split
        · exact h.merge hash _
        · exact h

theorem step {g : Registry} (hg : g.Steady) (h : s.Alike t) (e : LogEntry) : (s.step g e).Alike (t.step g e) := by
  unfold Store.step
  split
  · rw [h.cursor]
    split
    · exact (h.accept e).attempt hg _
    · exact h
  · exact h.accept e

theorem steps {g : Registry} (hg : g.Steady) (h : s.Alike t) (es : List LogEntry) :
    (es.foldl (Store.step g) s).Alike (es.foldl (Store.step g) t) := by
  induction es generalizing s t with
  | nil => exact h
  | cons e es ih => exact ih (h.step hg e)

end Store.Alike

/-- entries at or behind the cursor do nothing, in whatever order and however often they come -/
theorem Store.foldl_step_stale {s : Store} {es : List LogEntry} (h : ∀ e ∈ es, ¬ s.cursor < e.id) (g : Registry) :
    es.foldl (Store.step g) s = s := by
  induction es with
  | nil => rfl
  | cons e es ih =>
    rw [List.foldl_cons, step_stale (h e (by simp))]
    exact ih fun e' he' => h e' (List.mem_cons_of_mem _ he')

/-! ## From the image to the store -/

/-- every order of a store stands under its own hash and holds nothing that an image would change -/
def Store.Tidy (s : Store) : Prop := s.Holds fun hash o => o.Tidy hash

namespace Store.Tidy

theorem empty : ({} : Store).Tidy := by
  intro hash o h
  simp at h

/-- a replica that starts from the image of a store starts alike -/
theorem alike_ofSnapshot {s : Store} (h : s.Tidy) (createdAt : Int64) :
    (ofSnapshot (s.restoredImage createdAt)).Alike s := by
  refine ⟨rfl, fun hash => ?_⟩
  rw [get?_ofSnapshot_restoredImage fun hash o ho => (h hash o ho).own]
  cases ho : s.get? hash with
  | none => split <;> rfl
  | some o =>
    rw [if_neg (h hash o ho).key, Option.map_some, Option.map_some, Order.restored_restored]

end Store.Tidy

namespace Replica

variable {g : Registry}

theorem process_tidy (hq : g.Quiet) (hl : g.Lossless) {r : Replica} (h : r.store.Tidy) (e : LogEntry) :
    (r.process g e).store.Tidy := by
  refine process_holds hq h (fun hash bookName data o ha ho => Order.Tidy.rewrite ha ho) ?_
  intro hash o data ht hr
  obtain ⟨-, source, hsource, hreply⟩ := fetched_eq_ok hr
  refine ⟨ht.key, ht.own, ht.lossless.1, ?_⟩
  rintro d ⟨⟩
  exact hl _ source hsource o data hreply

theorem processAll_tidy (hq : g.Quiet) (hl : g.Lossless) {r : Replica} (h : r.store.Tidy) (es : List LogEntry) :
    (r.processAll g es).store.Tidy := by
  induction es generalizing r with
  | nil => exact h
  | cons e es ih => exact ih (process_tidy hq hl h e)

/-- a look right after the publication sees the image, or fails; if it can be decoded, it is the one of the store -/
theorem image_of_publish {r : Replica} (h : r.store.Tidy) {createdAt : Int64} {id id' : EntryId} {now : Nat}
    {image : Snapshot} (hpublished : (r.publish createdAt).2 = .ok id)
    (hloaded : ((r.publish createdAt).1.newestImage now).2 = .ok (some (id', image))) :
    id' = id ∧ image = r.store.restoredImage createdAt := by
  obtain ⟨hlines, -, -⟩ := publish_ok hpublished
  obtain ⟨-, hlook, -⟩ := Log.latest_of_last hlines now
  have hdecode : Snapshot.decode (r.store.snapshot createdAt).text = _ :=
    Store.decode_listed (fun hash o ho => (h hash o ho).lossless) createdAt (List.Perm.refl _)
  have hnewest : Snapshot.ofLook ((r.publish createdAt).1.snapshots.latest now).2 = .ok (some (id', image)) := hloaded
  rcases hlook with hl | hl
  · rw [hl] at hnewest
    cases hnewest
  · rw [hl, Snapshot.ofLook, hdecode] at hnewest
    split at hnewest
    · next heq =>
      split at heq
      · cases heq
        cases hnewest
        exact ⟨rfl, rfl⟩
      · cases heq
    · cases hnewest

end Replica

/-! ## Convergence -/

/-- **Bootstrap and replay converge with uninterrupted consumption.** Replica `a` starts without orders and reads a log;
between two entries it publishes an image, and the image is decoded. Replica `b` starts from it, is given any entries
again that are not ahead of the image, in any order, and then the rest of the log. Both end with the same cursor and
the same orders, if on-chain data that says nothing counts as absent. The sources do nothing but reply, by the hash, the
name and the off-chain data of an order and without real numbers. -/
theorem bootstrap_converges {g : Registry} (hq : g.Quiet) (hs : g.Steady) (hl : g.Lossless) (a b : Replica)
    (ha : a.store = {}) (before again after : List LogEntry) (createdAt : Int64) (id id' : EntryId) (now : Nat)
    (image : Snapshot) (hpublished : ((a.processAll g before).publish createdAt).2 = .ok id)
    (hloaded : (((a.processAll g before).publish createdAt).1.newestImage now).2 = .ok (some (id', image)))
    (hb : b.store = .ofSnapshot image) (hagain : ∀ e ∈ again, ¬ image.cursor < e.id) :
    (b.processAll g (again ++ after)).store.Alike
      (((a.processAll g before).publish createdAt).1.processAll g after).store := by
  have htidy : (a.processAll g before).store.Tidy := Replica.processAll_tidy hq hl (ha ▸ Store.Tidy.empty) before
  obtain ⟨-, rfl⟩ := Replica.image_of_publish htidy hpublished hloaded
  have hstart := htidy.alike_ofSnapshot createdAt
  have hredelivered : again.foldl (Store.step g) b.store = b.store :=
    Store.foldl_step_stale (by rw [hb]; exact hagain) g
  rw [Replica.processAll_store hq, Replica.processAll_store hq, (Replica.publish_cases _ createdAt).1,
    List.foldl_append, hredelivered, hb]
  exact hstart.steps hs after

/-- a replica after an order of `F1` whose source says nothing of it, and after the image of both -/
def Replica.publishing : Replica × Except ReplicaError EntryId :=
  (({} : Replica).processAll (answering ⟨.null, 1, 2⟩) [.placing ⟨1, 0⟩]).publish 0

/-- the image leaves the reply out; the order comes once more and is then stated anew, and both replicas ask again -/
theorem bootstrap_converges_redelivered :
    ∃ image : Snapshot, (Replica.publishing.1.newestImage 0).2 = .ok (some (⟨1, 0⟩, image)) ∧
      let a := Replica.publishing.1.processAll (answering ⟨.null, 1, 2⟩) [.placing ⟨2, 0⟩]
      let b := ({ store := .ofSnapshot image } : Replica).processAll (answering ⟨.null, 1, 2⟩)
        ([.placing ⟨1, 0⟩] ++ [.placing ⟨2, 0⟩])
      a.store.cursor = ⟨2, 0⟩ ∧ a.asked.length = 2 ∧ b.store.Alike a.store := by
  have hs : (answering ⟨.null, 1, 2⟩).Steady := by
    intro family source hsource o o' _ _ _
    rw [source_answering hsource, source_answering hsource]
  have hl : (answering ⟨.null, 1, 2⟩).Lossless := by
    intro family source hsource o data hreply
    rw [source_answering hsource] at hreply
    cases hreply
    exact ⟨.null, .null⟩
  have hpublished : Replica.publishing.2 = .ok ⟨1, 0⟩ := eq_ok_of_toOption (by decide +kernel)
  have hread : (Replica.publishing.1.newestImage 0).2.toOption.join.map (fun p => (p.1, p.2.cursor)) =
      some (⟨1, 0⟩, ⟨1, 0⟩) := by decide +kernel
  obtain ⟨image, hloaded, hcursor⟩ : ∃ image : Snapshot,
      (Replica.publishing.1.newestImage 0).2 = .ok (some (⟨1, 0⟩, image)) ∧ image.cursor = ⟨1, 0⟩ := by
    generalize (Replica.publishing.1.newestImage 0).2 = res at hread
    rcases res with _ | _ | ⟨id, image⟩
    · cases hread
    · cases hread
    · obtain ⟨rfl, hcursor⟩ := Prod.mk.inj (Option.some.inj hread)
      exact ⟨image, rfl, hcursor⟩
  refine ⟨image, hloaded, by decide +kernel, by decide +kernel, ?_⟩
  refine bootstrap_converges (answering_quiet _) hs hl {} _ rfl [.placing ⟨1, 0⟩] _ _ 0 _ _ 0 image hpublished
    hloaded rfl ?_
  rw [hcursor]
  decide

end ReplicatedOrders

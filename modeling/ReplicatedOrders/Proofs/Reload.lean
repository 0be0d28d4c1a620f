/-
Reloading: whether the image that a run publishes can be loaded again.

A payload may nest 127 levels, and its off-chain data 126. In an image the same data stands three levels deeper, so only
124 levels of it can be read again, and nothing on the way refuses what is deeper.
- `Store.Sound`: what holds of every order that a run leads to; `processEach_sound` carries it over the run.
- `Store.Sound.decode_text`: the image of a sound store is decoded exactly if the store is shallow.
- `Replica.shallow_processEach_iff`: which logs leave a shallow store.
- `processEach_reload`: the image that a run publishes, and what it means to a replica that starts from it.
-/
import ReplicatedOrders.Proofs.Attempt
import ReplicatedOrders.Proofs.Image
import ReplicatedOrders.Proofs.Replay

namespace ReplicatedOrders

open Json

/-! ## Sound orders -/

/-- what the sources say of an order holds no real number and nests at most 100 levels -/
def Registry.Modest (g : Registry) : Prop :=
  ∀ (family : String) (source : Source), g[family]? = some source → ∀ o data, (source o).reply = .ok data →
    data.orderInfo.Lossless ∧ data.orderInfo.depth ≤ 100

/-- an order that stands under its own hash and holds nothing that an image would change -/
structure Order.Tidy (hash : String) (o : Order) : Prop where
  key : hash ≠ ""
  own : o.hash = hash
  lossless : o.Lossless

/-- an order under a hash, as a run may leave it -/
structure Order.Sound (hash : String) (o : Order) : Prop where
  key : hash ≠ ""
  own : o.hash = hash
  lossless : o.Lossless
  info : ∀ d ∈ o.onChainData, d.orderInfo.depth ≤ 100

theorem Order.Sound.tidy {hash : String} {o : Order} (h : o.Sound hash) : o.Tidy hash := ⟨h.key, h.own, h.lossless⟩

def Store.Sound (s : Store) : Prop := ∀ hash o, s.get? hash = some o → o.Sound hash

theorem Store.Sound.empty : ({} : Store).Sound := by
  intro hash o h
  simp at h

/-- an upsert keeps what the sources said, and its own data is read from text -/
theorem Order.Tidy.rewrite {e : LogEntry} {hash : String} {bookName : Option String} {data : Value} {o : Order}
    (ha : e.action? = some (.upsert hash bookName data)) (ho : o.Tidy hash ∨ o = { hash }) :
    (Store.rewrite bookName data o).Tidy hash := by
  have hdata := LogEntry.lossless_of_carriedData? (LogEntry.carried_of_upsert ha).2
  rcases ho with ht | rfl
  · exact ⟨ht.key, ht.own, hdata, ht.lossless.2⟩
  · exact ⟨e.hash_ne_of_action? ha, rfl, hdata, by simp [Store.rewrite]⟩

namespace Replica

/-- one step: the section of an entry, and a merge if a source replies -/
theorem process_sound {g : Registry} (hq : g.Quiet) (hm : g.Modest) {r : Replica} (h : r.store.Sound) (e : LogEntry) :
    (r.process g e).store.Sound := by
  refine process_holds hq h ?_ ?_
  · intro hash bookName data o ha ho
    have htidy := Order.Tidy.rewrite ha (ho.imp_left Order.Sound.tidy)
    refine ⟨htidy.key, htidy.own, htidy.lossless, ?_⟩
    rcases ho with hs | rfl
    · exact hs.info
    · simp [Store.rewrite]
  · intro hash o data hs hr
    obtain ⟨-, source, hsource, hreply⟩ := fetched_eq_ok hr
    obtain ⟨hl, hd⟩ := hm _ source hsource o data hreply
    exact ⟨hs.key, hs.own, ⟨hs.lossless.1, by rintro d ⟨⟩; exact hl⟩, by rintro d ⟨⟩; exact hd⟩

theorem process_snapshots {g : Registry} (hq : g.Quiet) (r : Replica) (e : LogEntry) :
    (r.process g e).snapshots = r.snapshots := by
  rcases process_cases g r e with hp | ⟨hash, hp⟩
  · rw [hp, (r.accept_logs e).2.1]
  · rw [hp, (enrich_cases hq (r.accept e).1 hash).1, (r.accept_logs e).2.1]

/-- a run leads from a store with sound orders to one, and writes no image by itself -/
theorem processEach_sound {r : Replica} (h : r.store.Sound) (steps : List (Registry × LogEntry))
    (hg : ∀ p ∈ steps, p.1.Quiet ∧ p.1.Modest) :
    (r.processEach steps).store.Sound ∧ (r.processEach steps).snapshots = r.snapshots := by
  induction steps using List.reverseRecOn with
  | nil => exact ⟨h, rfl⟩
  | append_singleton steps p ih =>
    rw [processEach_snoc]
    obtain ⟨hs, hl⟩ := ih fun q hqm => hg q (List.mem_append_left _ hqm)
    obtain ⟨hq, hm⟩ := hg p (by simp)
    exact ⟨process_sound hq hm hs p.2, (process_snapshots hq _ p.2).trans hl⟩

end Replica

/-! ## Looks at a published image -/

namespace Log

theorem append_ok {l : Log} {payload : Option String} {id : EntryId} (h : (l.append payload).2 = .ok id) :
    (l.append payload).1.lines = l.lines ++ [⟨⟨id, payload⟩, 0⟩] ∧
      (l.append payload).1.failingLooks = l.failingLooks ∧ (l.append payload).1.lookFaults = l.lookFaults := by
  unfold append at h ⊢
  split at h
  · cases h
  · dsimp only at h ⊢
    split at h
    · cases h
    · cases h
      exact ⟨rfl, rfl, rfl⟩

/-- a look sees the last line, or it fails; without an armed fault it does not fail -/
theorem latest_of_last {l : Log} {ls : List LogLine} {e : LogEntry} (h : l.lines = ls ++ [⟨e, 0⟩]) (now : Nat) :
    (l.latest now).1.lines = l.lines ∧
      ((l.latest now).2 = .error readFault ∨ (l.latest now).2 = .ok (some e)) ∧
      (l.failingLooks = 0 → l.lookFaults = [] → (l.latest now).2 = .ok (some e)) := by
  have hvisible : (l.visible now).getLast? = some e := by
    simp [visible, h]
  unfold latest
  split
  · next n hn => exact ⟨rfl, Or.inl rfl, fun h0 => by omega⟩
  · dsimp only
    split
    · next hfaults => exact ⟨rfl, Or.inl rfl, fun _ hnil => by simp [hnil] at hfaults⟩
    · rw [hvisible]
      exact ⟨rfl, Or.inr rfl, fun _ _ => rfl⟩

/-- where the last line holds nothing to start from, looking never ends in a start -/
theorem bootFrom_of_last {l : Log} {ls : List LogLine} {e : LogEntry} {required : Bool}
    (hl : l.lines = ls ++ [⟨e, 0⟩]) (he : Start.ofLook required (.ok (some e)) = none) (delay n done now : Nat) :
    (l.bootFrom required delay n done now).start = none := by
  induction n generalizing l done now with
  | zero => rfl
  | succ n ih =>
    obtain ⟨hlines, hlook, -⟩ := latest_of_last hl now
    have hnone : Start.ofLook required (l.latest now).2 = none := by
      rcases hlook with h | h <;> rw [h]
      · rfl
      · exact he
    simp only [bootFrom, hnone]
    exact ih (hlines.trans hl) _ _

end Log

namespace Replica

theorem publish_ok {r : Replica} {createdAt : Int64} {id : EntryId} (h : (r.publish createdAt).2 = .ok id) :
    (r.publish createdAt).1.snapshots.lines =
        r.snapshots.lines ++ [⟨⟨id, some (r.store.snapshot createdAt).text⟩, 0⟩] ∧
      (r.publish createdAt).1.snapshots.failingLooks = r.snapshots.failingLooks ∧
      (r.publish createdAt).1.snapshots.lookFaults = r.snapshots.lookFaults := by
  have happend := @Log.append_ok r.snapshots (some (r.store.snapshot createdAt).text) id
  unfold publish at h ⊢
  generalize r.snapshots.append (some (r.store.snapshot createdAt).text) = p at h happend ⊢
  obtain ⟨l, _ | id'⟩ := p
  · cases h
  · cases h
    exact happend rfl

end Replica

/-- the off-chain data of every order nests at most 124 levels -/
def Store.Shallow (s : Store) : Prop := ∀ hash o, s.get? hash = some o → o.offChainData.depth ≤ 124

namespace Store.Sound

variable {s : Store} (h : s.Sound)
include h

/-- what the sources said always fits into an image, so only off-chain data can be too deep -/
theorem fits_iff : (∀ o ∈ s.orders.toList, o.2.Fits 123) ↔ s.Shallow := by
  constructor
  · intro hfits hash o ho
    exact (hfits (hash, o) (Std.ExtTreeMap.mem_toList_iff_getElem?_eq_some.2 ho)).1
  · intro hshallow o ho
    have hget : s.get? o.1 = some o.2 := Std.ExtTreeMap.mem_toList_iff_getElem?_eq_some.1 ho
    exact ⟨hshallow o.1 o.2 hget, fun d hd => ((h o.1 o.2 hget).info d hd).trans (by omega)⟩

theorem decode_text (createdAt : Int64) :
    (s.Shallow → Snapshot.decode (s.snapshot createdAt).text = .ok (s.restoredImage createdAt)) ∧
      (¬ s.Shallow → Snapshot.decode (s.snapshot createdAt).text = .error .malformed) := by
  have hdecode := decode_listed (fun hash o ho => (h hash o ho).lossless) createdAt (List.Perm.refl _)
  rw [← h.fits_iff]
  exact ⟨fun hfits => hdecode.trans (if_pos hfits), fun hfits => hdecode.trans (if_neg hfits)⟩

theorem get?_restored (createdAt : Int64) (hash : String) :
    (ofSnapshot (s.restoredImage createdAt)).get? hash = (s.get? hash).map Order.restored := by
  rw [get?_ofSnapshot_restoredImage fun hash o ho => (h hash o ho).own]
  split
  · next hempty =>
    cases ho : s.get? hash with
    | none => rfl
    | some o => exact absurd hempty (h hash o ho).key
  · rfl

end Store.Sound

/-- a run from no orders leaves a shallow store exactly if the last accepted upsert of each order carries such data -/
theorem Replica.shallow_processEach_iff (r : Replica) (hr : r.store.orders = ∅) (steps : List (Registry × LogEntry))
    (hq : ∀ p ∈ steps, p.1.Quiet) :
    (r.processEach steps).store.Shallow ↔
      ∀ hash, isStanding hash none (accepted r.store.cursor (steps.map Prod.snd)) = true →
        ∀ v, standingData hash none (accepted r.store.cursor (steps.map Prod.snd)) = some v → v.depth ≤ 124 := by
  have hfold : ∀ hash, (r.processEach steps).store.produced? hash =
      restateAll hash none (accepted r.store.cursor (steps.map Prod.snd)) := by
    intro hash
    have hnone : r.store.produced? hash = none := by simp [Store.produced?, Store.get?, hr]
    rw [(r.processEach_agree steps hq).produced, produced?_acceptAll, hnone]
  constructor
  · intro h hash hstands v hv
    rw [← isSome_restateAll, ← hfold, Option.isSome_iff_exists] at hstands
    obtain ⟨q, hq⟩ := hstands
    obtain ⟨o, ho, rfl⟩ := Option.map_eq_some_iff.1 hq
    have hdata := data_restateAll hash none _ ((hfold hash).symm.trans hq)
    rw [hv, Option.some.injEq] at hdata
    exact hdata ▸ h hash o ho
  · intro h hash o ho
    have hq : (r.processEach steps).store.produced? hash = some o.produced := by rw [Store.produced?, ho]; rfl
    have hrestated := (hfold hash).symm.trans hq
    exact h hash (by rw [← isSome_restateAll, hrestated]; rfl) _ (data_restateAll hash none _ hrestated).symm

/-- **What a run publishes.** A run starts with no orders, and its sources reply with on-chain data that nests at most
100 levels. If then an image gets into its stream, it can be loaded exactly if the off-chain data of every order nests
at most 124 levels, and that is told by the last accepted upsert of each. If it cannot be loaded, no number of looks
leads to a start. -/
theorem processEach_reload (r : Replica) (hr : r.store.orders = ∅) (steps : List (Registry × LogEntry))
    (hg : ∀ p ∈ steps, p.1.Quiet ∧ p.1.Modest) (createdAt : Int64) (id : EntryId)
    (hpublished : ((r.processEach steps).publish createdAt).2 = .ok id)
    (hlooks : r.snapshots.failingLooks = 0) (hfaults : r.snapshots.lookFaults = []) :
    let s := (r.processEach steps).store
    let r' := ((r.processEach steps).publish createdAt).1
    let es := accepted r.store.cursor (steps.map Prod.snd)
    (s.Shallow ↔ ∀ hash, isStanding hash none es = true → ∀ v, standingData hash none es = some v → v.depth ≤ 124) ∧
    (s.Shallow → ∃ image : Snapshot, (∀ now, (r'.newestImage now).2 = .ok (some (id, image))) ∧
      image.cursor = s.cursor ∧ ∀ hash, (Store.ofSnapshot image).get? hash = (s.get? hash).map Order.restored) ∧
    (¬ s.Shallow → ∀ now, (r'.newestImage now).2 = .error (.json .malformed) ∧
      ∀ required delay limit, (r'.snapshots.boot required delay limit now).start = none) := by
  intro s r' es
  have hempty : r.store.Sound := by
    intro hash o ho
    simp [Store.get?, hr] at ho
  obtain ⟨hsound, hsnapshots⟩ := Replica.processEach_sound hempty steps hg
  obtain ⟨hlines, hlooks', hfaults'⟩ := Replica.publish_ok hpublished
  obtain ⟨hshallow, hdeep⟩ := hsound.decode_text createdAt
  have hlatest : ∀ now, (r'.snapshots.latest now).2 = .ok (some ⟨id, some (s.snapshot createdAt).text⟩) := by
    intro now
    obtain ⟨-, -, hsee⟩ := Log.latest_of_last hlines now
    exact hsee (by rw [hlooks', hsnapshots, hlooks]) (by rw [hfaults', hsnapshots, hfaults])
  have hnewest : ∀ now,
      (r'.newestImage now).2 = Snapshot.ofLook (.ok (some ⟨id, some (s.snapshot createdAt).text⟩)) := by
    intro now
    rw [← hlatest now]
    rfl
  refine ⟨r.shallow_processEach_iff hr steps fun p hp => (hg p hp).1, ?_, ?_⟩
  · intro h
    refine ⟨s.restoredImage createdAt, ?_, rfl, hsound.get?_restored createdAt⟩
    intro now
    rw [hnewest, Snapshot.ofLook, hshallow h]
  · intro h now
    have hnone : ∀ required, Start.ofLook required (.ok (some ⟨id, some (s.snapshot createdAt).text⟩)) = none := by
      intro required
      rw [Start.ofLook, Snapshot.ofLook, hdeep h]
    refine ⟨?_, ?_⟩
    · rw [hnewest, Snapshot.ofLook, hdeep h]
    · intro required delay limit
      exact Log.bootFrom_of_last hlines (hnone required) _ _ _ _

/-! ## A run whose image cannot be loaded -/

namespace Json.Value

/-- so many arrays around nothing -/
def nested : Nat → Value
  | 0 => .null
  | n + 1 => .array [nested n]

theorem depth_nested (n : Nat) : (nested n).depth = n := by
  induction n with
  | zero => rfl
  | succ n ih => simp [nested, depth, depth.depthItems, ih]

theorem textual_nested (n : Nat) : (nested n).textual = nested n := by
  induction n with
  | zero => rfl
  | succ n ih => simp [nested, textual, textualItems, ih]

theorem lossless_nested (n : Nat) : (nested n).Lossless := by
  induction n with
  | zero => exact ⟨.null, .null⟩
  | succ n ih => exact ⟨.array (by simpa using ih.1), .array (by simpa using ih.2)⟩

end Json.Value

/-- an upsert of `a` whose off-chain data is so many arrays around nothing -/
def LogEntry.nesting (n : Nat) : LogEntry :=
  ⟨⟨1, 0⟩, some (Value.object [("offChainData", .nested n), ("orderHash", .text "a")]).compact⟩

/-- an update is read if its off-chain data nests at most 126 levels -/
theorem LogEntry.action?_nesting {n : Nat} (h : n < 126) :
    (LogEntry.nesting (n + 1)).action? = some (.upsert "a" none (.nested (n + 1))) := by
  have hlossless : (Value.object [("offChainData", .nested (n + 1)), ("orderHash", .text "a")]).Lossless := by
    obtain ⟨hc, hr⟩ := Value.lossless_nested (n + 1)
    refine ⟨.object ?_ ?_, .object ?_⟩
    · have hrising : "offChainData" < "orderHash" := by decide
      exact List.pairwise_pair.2 hrising
    · simpa using ⟨hc, .text "a"⟩
    · simpa using ⟨hr, .text "a"⟩
  have hdepth : (Value.object [("offChainData", .nested (n + 1)), ("orderHash", .text "a")]).depth ≤ maxDepth := by
    simp [Value.depth, Value.depth.depthMembers, Value.depth_nested, maxDepth]
    omega
  have hread : Update.ofMembers [("offChainData", .nested (n + 1)), ("orderHash", .text "a")] =
      .ok ⟨"a", none, some (.nested (n + 1)), false⟩ := by
    have hget : Members.get? [("offChainData", .nested (n + 1)), ("orderHash", .text "a")] Order.offChainField =
        some (.nested (n + 1)) := rfl
    have hdata : ((Members.get? [("offChainData", .nested (n + 1)), ("orderHash", .text "a")] Order.offChainField).map
        Value.textual).filter (fun v => !v.isNull) = some (.nested (n + 1)) := by
      rw [hget, Option.map_some, Value.textual_nested]
      rfl
    simp only [Update.ofMembers, hdata]
    rfl
  simp only [LogEntry.action?, nesting, Option.bind_some, Update.decode, Decoder.decode_compact_value hlossless,
    if_pos hdepth, hread]
  rfl

/-- an update with 125 or 126 levels of off-chain data is read, and leaves an order that is too deep for an image -/
theorem Replica.not_shallow_nesting {n : Nat} (hmin : 124 ≤ n) (hmax : n < 126) :
    ¬ (({} : Replica).processEach [(∅, .nesting (n + 1))]).store.Shallow := by
  have haction := LogEntry.action?_nesting hmax
  have hdata := (LogEntry.carried_of_upsert haction).2
  have hupserts : (LogEntry.nesting (n + 1)).upserts "a" = true := by simp [LogEntry.upserts, haction]
  have hfresh : (LogEntry.nesting (n + 1)).IsFresh .zero [] := ⟨by show EntryId.zero < ⟨1, 0⟩; decide, by simp⟩
  have haccepted : accepted ({} : Replica).store.cursor [LogEntry.nesting (n + 1)] = [LogEntry.nesting (n + 1)] := by
    rw [accepted, acceptedAfter, if_pos hfresh, acceptedAfter]
  rw [Replica.shallow_processEach_iff {} rfl _ (by simpa using Registry.quiet_empty), List.map_singleton, haccepted]
  intro h
  have hle := h "a" (by simp [isStanding, hupserts]) (.nested (n + 1)) (by simp [standingData, hupserts, hdata])
  rw [Value.depth_nested] at hle
  omega

theorem processEach_reload_nesting :
    ∃ r : Replica, (({} : Replica).processEach [(∅, .nesting 125)]).publish 0 = (r, .ok ⟨1, 0⟩) ∧
      ∀ now, (r.newestImage now).2 = .error (.json .malformed) ∧
        ∀ required delay limit, (r.snapshots.boot required delay limit now).start = none := by
  have hg : ∀ p ∈ [((∅ : Registry), LogEntry.nesting 125)], p.1.Quiet ∧ p.1.Modest := by
    simp only [List.mem_singleton, forall_eq]
    exact ⟨Registry.quiet_empty, fun family source hs => by simp at hs⟩
  have hpublished : ((({} : Replica).processEach [(∅, .nesting 125)]).publish 0).2 = .ok ⟨1, 0⟩ := by
    rw [Replica.publish, (Replica.processEach_sound Store.Sound.empty _ hg).2]
    rfl
  obtain ⟨-, -, hdeep⟩ := processEach_reload {} rfl _ hg 0 ⟨1, 0⟩ hpublished rfl rfl
  have hunread := hdeep (Replica.not_shallow_nesting (n := 124) (by omega) (by omega))
  generalize (({} : Replica).processEach [(∅, .nesting 125)]).publish 0 = p at hpublished hunread
  obtain ⟨r, res⟩ := p
  exact ⟨r, Prod.ext rfl hpublished, hunread⟩

end ReplicatedOrders

/-
Independence: only the order of updates within one hash matters.

An accepted entry changes the order of its own hash, by what that order was, and the verdict on it looks at no other. So
what a run makes of the order of a hash is a fold over the updates of that hash, and so are its verdicts on that hash.
Lists of verdicts that agree on every hash are permutations of each other, and neither the totals nor what is written
back depend on more than that.
- `Store.get?_steps`: the order of a hash after a run, from the updates of that hash.
- `Store.verdicts_of_hash`: the verdicts on a hash, from the updates of that hash.
- `perm_of_keys`: lists that agree on every key are permutations of each other.
- `Log.payloads_announce`: what is written back when no append fails.
- `processAll_reordered`: two runs that differ in the order of updates of different hashes.
-/
import ReplicatedOrders.Proofs.Verdicts

namespace ReplicatedOrders

/-! ## Entries to come -/

/-- entries with rising ids ahead of the cursor: all of them will be accepted -/
structure Store.Awaits (s : Store) (es : List LogEntry) : Prop where
  ahead : ∀ e ∈ es, s.cursor < e.id
  rising : es.Pairwise fun d e => d.id < e.id

instance (s : Store) (es : List LogEntry) : Decidable (s.Awaits es) :=
  decidable_of_iff ((∀ e ∈ es, s.cursor < e.id) ∧ es.Pairwise fun d e => d.id < e.id)
    ⟨fun h => ⟨h.1, h.2⟩, fun h => ⟨h.ahead, h.rising⟩⟩

namespace Store.Awaits

variable {s : Store} {e : LogEntry} {es : List LogEntry}

theorem head (h : s.Awaits (e :: es)) : s.cursor < e.id := h.ahead e List.mem_cons_self

theorem step (h : s.Awaits (e :: es)) (g : Registry) : (s.step g e).Awaits es := by
  obtain ⟨hlater, hrising⟩ := List.pairwise_cons.1 h.rising
  refine ⟨fun d hd => ?_, hrising⟩
  rw [cursor_step, EntryId.max_eq_right h.head]
  exact hlater d hd

end Store.Awaits

/-! ## Updates of one hash -/

namespace Action

/-- the action deletes or upserts the order of `key` -/
def updates (key : String) : Action → Bool
  | delete hash | upsert hash _ _ => hash = key
  | skip _ => false

/-- an action updates the order of its hash, or none -/
theorem updates_iff (key : String) (a : Action) : a.updates key = true ↔ a.updates a.hash = true ∧ a.hash = key := by
  cases a <;> simp [updates, hash]

theorem settle_of_not_updates {key : String} {a : Action} (h : a.updates key = false) (g : Registry)
    (o : Option Order) : a.settle g key o = o := by
  cases a with
  | delete hash => exact if_neg (of_decide_eq_false h)
  | upsert hash bookName data => exact if_neg (of_decide_eq_false h)
  | skip hash => rfl

/-- what accepted actions make of the order of `key`, with an attempt after every upsert -/
def settleAll (g : Registry) (key : String) (as : List Action) (o : Option Order) : Option Order :=
  as.foldl (fun o a => a.settle g key o) o

/-- the verdicts on accepted updates of `key` -/
def verdicts (g : Registry) (key : String) : List Action → Option Order → List Verdict
  | [], _ => []
  | a :: as, o => a.verdict g o :: verdicts g key as (a.settle g key o)

end Action

/-- what an entry asks for does not depend on its id -/
theorem LogEntry.action?_of_payload {d e : LogEntry} (h : d.payload = e.payload) : d.action? = e.action? := by
  rw [action?, action?, h]

/-- the updates of `key` among entries, in their order -/
def updatesOf (key : String) (es : List LogEntry) : List Action :=
  (es.filterMap LogEntry.action?).filter (Action.updates key)

theorem updatesOf_cons (key : String) (e : LogEntry) (es : List LogEntry) :
    updatesOf key (e :: es) = e.action?.toList.filter (Action.updates key) ++ updatesOf key es := by
  unfold updatesOf
  cases ha : e.action? with
  | none => rw [List.filterMap_cons_none ha]; rfl
  | some a => rw [List.filterMap_cons_some ha, Option.toList_some, ← List.filter_append, List.singleton_append]

/-- **The order of a hash after a run** comes from the updates of that hash. -/
theorem Store.get?_steps {s : Store} {es : List LogEntry} (h : s.Awaits es) (g : Registry) (key : String) :
    (es.foldl (step g) s).get? key = Action.settleAll g key (updatesOf key es) (s.get? key) := by
  induction es generalizing s with
  | nil => rfl
  | cons e es ih =>
    have hstep := get?_step h.head g key
    rw [List.foldl_cons, ih (h.step g), hstep, updatesOf_cons]
    cases e.action? with
    | none => rfl
    | some a =>
      cases ha : a.updates key with
      | true => simp [ha, Action.settleAll]
      | false => simp [ha, Action.settle_of_not_updates ha]

/-! ## Verdicts on one hash -/

namespace Verdict

/-- the hash that an update was about -/
def hash? : Verdict → Option String
  | deleted hash _ | upserted hash _ => some hash
  | _ => none

end Verdict

theorem Action.hash?_verdict (g : Registry) (key : String) (a : Action) (o : Option Order) :
    (a.verdict g o).hash? = some key ↔ a.updates key = true := by
  cases a <;> simp [Action.verdict, Action.updates, Verdict.hash?]

namespace Store

/-- the verdicts of a run -/
def verdicts (g : Registry) : Store → List LogEntry → List Verdict
  | _, [] => []
  | s, e :: es => s.verdict g e :: verdicts g (s.step g e) es

/-- **The verdicts on a hash** come from the updates of that hash. -/
theorem verdicts_of_hash {s : Store} {es : List LogEntry} (h : s.Awaits es) (g : Registry) (key : String) :
    (s.verdicts g es).filter (fun v => v.hash? = some key) =
      Action.verdicts g key (updatesOf key es) (s.get? key) := by
  induction es generalizing s with
  | nil => rfl
  | cons e es ih =>
    have hstep := get?_step h.head g key
    rw [verdicts, List.filter_cons, ih (h.step g), hstep, updatesOf_cons]
    cases he : e.action? with
    | none =>
      rw [verdict_malformed h.head he]
      rfl
    | some a =>
      rw [verdict_accepted h.head he]
      simp only [Option.elim_some, Action.hash?_verdict, Bool.decide_eq_true]
      cases ha : a.updates key with
      | true => simp [ha, Action.verdicts, ((Action.updates_iff key a).1 ha).2]
      | false => simp [ha, Action.settle_of_not_updates ha]

end Store

/-! ## Lists that agree on every key -/

/-- **Lists that agree on every key** are permutations of each other, the elements without a key left out. -/
theorem perm_of_keys {α κ : Type} [DecidableEq κ] (key : α → Option κ) {l l' : List α}
    (h : ∀ k, l.filter (key · = some k) = l'.filter (key · = some k)) :
    (l.filter fun a => (key a).isSome).Perm (l'.filter fun a => (key a).isSome) := by
  classical
  refine List.perm_iff_count.2 fun a => ?_
  cases hk : key a with
  | none =>
    have hout : ∀ l : List α, (l.filter fun a => (key a).isSome).count a = 0 := by
      intro l
      refine List.count_eq_zero.2 fun hmem => ?_
      have hsome := (List.mem_filter.1 hmem).2
      rw [hk] at hsome
      cases hsome
    rw [hout, hout]
  | some k =>
    have hin : ∀ l : List α,
        (l.filter fun a => (key a).isSome).count a = (l.filter (key · = some k)).count a := by
      intro l
      rw [List.count_filter (by rw [hk]; rfl), List.count_filter (by rw [hk]; exact decide_eq_true rfl)]
    rw [hin, hin, h]

/-! ## What does not depend on the order of verdicts -/

instance : RightCommutative Totals.after where
  right_comm t v w := by
    rcases v with _ | _ | _ | ⟨_, _ | _⟩ | ⟨_, _ | _ | _⟩
    all_goals rcases w with _ | _ | _ | ⟨_, _ | _⟩ | ⟨_, _ | _ | _⟩ <;> rfl

/-- only verdicts on a hash count -/
theorem Totals.foldl_after (t : Totals) (vs : List Verdict) :
    vs.foldl after t = (vs.filter fun v => v.hash?.isSome).foldl after t := by
  rw [List.foldl_filter]
  congr
  funext t v
  cases v <;> rfl

/-- only verdicts on a hash are written back -/
theorem Verdict.filterMap_delta? (vs : List Verdict) :
    vs.filterMap delta? = (vs.filter fun v => v.hash?.isSome).filterMap delta? := by
  rw [List.filterMap_filter]
  refine List.filterMap_congr fun v _ => ?_
  cases v <;> rfl

namespace Log

/-- the payloads, in the order of the log -/
def payloads (l : Log) : List (Option String) := l.entries.map LogEntry.payload

theorem foldl_after (l : Log) (vs : List Verdict) :
    vs.foldl after l = (vs.filterMap Verdict.delta?).foldl announce l := by
  rw [List.foldl_filterMap]
  congr
  funext l v
  unfold after
  cases v.delta? <;> rfl

theorem armed_announce_le (l : Log) (ds : List Delta) : (ds.foldl announce l).armed ≤ l.armed := by
  induction ds generalizing l with
  | nil => exact Nat.le_refl _
  | cons d ds ih =>
    refine (ih (l.announce d)).trans ?_
    rcases l.append_armed (some d.text) with ⟨-, -, h⟩ | ⟨-, -, h⟩
    · exact (Nat.le_succ _).trans h.ge
    · exact h.ge

/-- **Where no fault is spent,** all deltas get into the stream, in their order. -/
theorem payloads_announce {l : Log} {ds : List Delta} (h : (ds.foldl announce l).armed = l.armed) :
    (ds.foldl announce l).payloads = l.payloads ++ ds.map fun d => some d.text := by
  induction ds generalizing l with
  | nil => exact (List.append_nil _).symm
  | cons d ds ih =>
    have hle := armed_announce_le (l.announce d) ds
    rw [List.foldl_cons] at h ⊢
    rcases l.append_armed (some d.text) with ⟨-, -, harmed⟩ | ⟨-, hlines, harmed⟩
    · change l.armed = (l.announce d).armed + 1 at harmed
      omega
    · have hpayloads : (l.announce d).payloads = l.payloads ++ [some d.text] := by
        simp only [payloads, entries, announce, hlines, List.map_append, List.map_singleton]
      rw [ih (h.trans harmed), hpayloads, List.map_cons, List.append_assoc, List.singleton_append]

end Log

/-! ## Runs -/

/-- a run leaves behind what its verdicts say -/
theorem Replica.processAll_verdicts {g : Registry} (hg : g.Quiet) (r : Replica) (es : List LogEntry) :
    (r.processAll g es).store.totals = (r.store.verdicts g es).foldl Totals.after r.store.totals ∧
      (r.processAll g es).updates =
        ((r.store.verdicts g es).filterMap Verdict.delta?).foldl Log.announce r.updates := by
  rw [← Log.foldl_after]
  induction es generalizing r with
  | nil => exact ⟨rfl, rfl⟩
  | cons e es ih =>
    obtain ⟨-, htotals, hupdates⟩ := process_verdict hg r e
    obtain ⟨htotals', hupdates'⟩ := ih (r.process g e)
    rw [process_store hg] at htotals'
    rw [process_store hg] at htotals hupdates'
    rw [htotals] at htotals'
    rw [hupdates] at hupdates'
    exact ⟨htotals', hupdates'⟩

/-- **Only the order of updates within one hash matters.** Two lists of entries, all to be accepted, with the same
updates of every hash in the same order, leave the same orders and the same totals. As long as no append fails, which is
to say that no armed fault is spent, they write back the same deltas, each as often, maybe in another order. -/
theorem processAll_reordered {g : Registry} (hq : g.Quiet) (r : Replica) {es es' : List LogEntry}
    (h : r.store.Awaits es) (h' : r.store.Awaits es') (hsame : ∀ hash, updatesOf hash es = updatesOf hash es') :
    let one := r.processAll g es
    let other := r.processAll g es'
    one.store.orders = other.store.orders ∧ one.store.totals = other.store.totals ∧
      (one.updates.armed = r.updates.armed → other.updates.armed = r.updates.armed →
        ∃ sent sent' : List Delta, sent.Perm sent' ∧
          one.updates.payloads = r.updates.payloads ++ sent.map (fun d => some d.text) ∧
          other.updates.payloads = r.updates.payloads ++ sent'.map fun d => some d.text) := by
  intro one other
  obtain ⟨htotals, hupdates⟩ := r.processAll_verdicts hq es
  obtain ⟨htotals', hupdates'⟩ := r.processAll_verdicts hq es'
  have hverdicts : ∀ hash, (r.store.verdicts g es).filter (fun v => v.hash? = some hash) =
      (r.store.verdicts g es').filter fun v => v.hash? = some hash := by
    intro hash
    rw [Store.verdicts_of_hash h, Store.verdicts_of_hash h', hsame]
  have hperm := perm_of_keys Verdict.hash? hverdicts
  refine ⟨?_, ?_, fun harmed harmed' => ?_⟩
  · refine Std.ExtTreeMap.ext_getElem? fun hash => ?_
    show one.store.get? hash = other.store.get? hash
    rw [Replica.processAll_store hq, Replica.processAll_store hq, Store.get?_steps h, Store.get?_steps h', hsame]
  · rw [htotals, htotals', Totals.foldl_after, hperm.foldl_eq, ← Totals.foldl_after]
  · refine ⟨(r.store.verdicts g es).filterMap Verdict.delta?, (r.store.verdicts g es').filterMap Verdict.delta?, ?_, ?_,
      ?_⟩
    · rw [Verdict.filterMap_delta?, Verdict.filterMap_delta? (r.store.verdicts g es')]
      exact hperm.filterMap _
    · rw [hupdates] at harmed ⊢
      exact Log.payloads_announce harmed
    · rw [hupdates'] at harmed' ⊢
      exact Log.payloads_announce harmed'

namespace LogEntry

/-- an upsert of another order of `F1` -/
def second (id : EntryId) : LogEntry :=
  ⟨id, some "\x7b\"orderHash\":\"b\",\"orderBookName\":\"F1\",\"offChainData\":2\x7d"⟩

/-- the deletion of the first one -/
def withdrawing (id : EntryId) : LogEntry := ⟨id, some "\x7b\"orderHash\":\"a\",\"deleted\":true\x7d"⟩

/-- an entry that asks for nothing -/
def idle (id : EntryId) : LogEntry := ⟨id, some "\x7b\"orderHash\":\"b\"\x7d"⟩

end LogEntry

/-- the upserts of two orders, and the deletion of the first -/
def oneWay : List LogEntry := [.placing ⟨1, 0⟩, .second ⟨2, 0⟩, .withdrawing ⟨3, 0⟩]

/-- the same updates with the upserts the other way round, and entries between them that change nothing -/
def otherWay : List LogEntry :=
  [.second ⟨4, 0⟩, ⟨⟨5, 0⟩, none⟩, .placing ⟨6, 0⟩, .idle ⟨7, 0⟩, .withdrawing ⟨8, 0⟩]

theorem updatesOf_otherWay (hash : String) : updatesOf hash oneWay = updatesOf hash otherWay := by
  have hplace : (LogEntry.placing .zero).action?.map (fun a => (a.hash, a.updates "a")) = some ("a", true) := by
    decide +kernel
  have hsecond : (LogEntry.second .zero).action?.map (fun a => (a.hash, a.updates "b")) = some ("b", true) := by
    decide +kernel
  have hidle : (LogEntry.idle .zero).action?.map (fun a => (a.hash, a.updates "b")) = some ("b", false) := by
    decide +kernel
  have hwithdraw : (LogEntry.withdrawing .zero).action?.map (fun a => (a.hash, a.updates "a")) = some ("a", true) := by
    decide +kernel
  obtain ⟨a, ha, hplace⟩ := Option.map_eq_some_iff.1 hplace
  obtain ⟨b, hb, hsecond⟩ := Option.map_eq_some_iff.1 hsecond
  obtain ⟨c, hc, hidle⟩ := Option.map_eq_some_iff.1 hidle
  obtain ⟨d, hd, hwithdraw⟩ := Option.map_eq_some_iff.1 hwithdraw
  rw [Prod.mk.injEq] at hplace hsecond hidle hwithdraw
  have ha : ∀ id, (LogEntry.placing id).action? = some a := fun id => (LogEntry.action?_of_payload rfl).trans ha
  have hb : ∀ id, (LogEntry.second id).action? = some b := fun id => (LogEntry.action?_of_payload rfl).trans hb
  have hc : ∀ id, (LogEntry.idle id).action? = some c := fun id => (LogEntry.action?_of_payload rfl).trans hc
  have hd : ∀ id, (LogEntry.withdrawing id).action? = some d := fun id => (LogEntry.action?_of_payload rfl).trans hd
  have hnone : ∀ id, (LogEntry.mk id none).action? = none := fun _ => rfl
  have hone : oneWay.filterMap LogEntry.action? = [a, b, d] := by
    rw [oneWay, List.filterMap_cons_some (ha _), List.filterMap_cons_some (hb _), List.filterMap_cons_some (hd _),
      List.filterMap_nil]
  have hother : otherWay.filterMap LogEntry.action? = [b, a, c, d] := by
    rw [otherWay, List.filterMap_cons_some (hb _), List.filterMap_cons_none (hnone _), List.filterMap_cons_some (ha _),
      List.filterMap_cons_some (hc _), List.filterMap_cons_some (hd _), List.filterMap_nil]
  rw [updatesOf, updatesOf, hone, hother]
  simp only [List.filter_cons, List.filter_nil, Action.updates_iff hash, hplace, hsecond, hidle, hwithdraw]
  by_cases hk : "a" = hash
  · have hne : "b" ≠ hash := by
      rw [← hk]
      decide
    simp [hk, hne]
  · simp [hk]

/-- a replica that is told entries and whose sources answer -/
def Replica.told (es : List LogEntry) : Replica := ({} : Replica).processAll (answering ⟨.text "open", 1, 2⟩) es

/-- Both ways the second order is left, and the deltas are sent in another order. -/
theorem processAll_reordered_two :
    ({} : Replica).store.Awaits oneWay ∧ ({} : Replica).store.Awaits otherWay ∧
      (∀ hash, updatesOf hash oneWay = updatesOf hash otherWay) ∧
      (Replica.told oneWay).store.orders = (Replica.told otherWay).store.orders ∧
      (Replica.told oneWay).store.hashes = ["b"] ∧
      (Replica.told oneWay).store.totals = (Replica.told otherWay).store.totals ∧
      (Replica.told oneWay).updates.payloads.Perm (Replica.told otherWay).updates.payloads ∧
      (Replica.told oneWay).updates.payloads ≠ (Replica.told otherWay).updates.payloads := by
  have hq : (answering ⟨.text "open", 1, 2⟩).Quiet := answering_quiet _
  have hes : ({} : Replica).store.Awaits oneWay := by decide +kernel
  have hes' : ({} : Replica).store.Awaits otherWay := by decide +kernel
  obtain ⟨horders, htotals, hsent⟩ := processAll_reordered hq {} hes hes' updatesOf_otherWay
  obtain ⟨hfew, hsafe, hsafe', hne⟩ : (Replica.told oneWay).store.hashes = ["b"] ∧
      (Replica.told oneWay).updates.armed = 0 ∧ (Replica.told otherWay).updates.armed = 0 ∧
      (Replica.told oneWay).updates.payloads ≠ (Replica.told otherWay).updates.payloads := by decide +kernel
  unfold Replica.told at *
  obtain ⟨sent, sent', hperm, hsent, hsent'⟩ := hsent hsafe hsafe'
  have hpayloads := (List.Perm.of_eq hsent).trans (((hperm.map _).append_left _).trans (List.Perm.of_eq hsent'.symm))
  exact ⟨hes, hes', updatesOf_otherWay, horders, hfew, htotals, hpayloads, hne⟩

end ReplicatedOrders

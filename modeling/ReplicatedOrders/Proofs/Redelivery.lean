/-
Redelivery: a batch of updates that comes a second time does no harm.

The updates of one hash, with the attempts that follow them, make of its order what one of three things makes of it:
nothing; a deletion, after which it does not matter what the order was; or upserts, which state the data, maybe a name,
and leave complete on-chain data alone. Done twice, each of the three is as good as done once.
- `Course.settleAll`: updates of one hash are one of the three, by induction from the end.
- `Course.again`: what the second time does to the outcome of the first.
- `processAll_again`: a batch under fresh ids, and then the same payloads again.
-/
import ReplicatedOrders.Proofs.Independence

namespace ReplicatedOrders

/-! ## Attempts -/

namespace Registry

/-- an attempt changes the on-chain data at most -/
theorem settled_produced (g : Registry) (o : Order) : (g.settled o).produced = o.produced := by
  unfold settled
  split <;> rfl

theorem settled_of_enriched (g : Registry) {o : Order} (h : o.isEnriched = true) : g.settled o = o := by
  rw [settled, finding_complete h]

end Registry

/-! ## What updates make of an order -/

/-- what updates make of the order of one hash, whatever it was before -/
inductive Course (f : Option Order → Option Order) : Prop where
  /-- nothing -/
  | idle (h : ∀ o, f o = o)
  /-- something that does not depend on the order before -/
  | anew (x : Option Order) (h : ∀ o, f o = x)
  /-- the data is stated, and maybe a name; complete on-chain data stays -/
  | restated (name : Option String) (data : Json.Value)
    (h : ∀ o, ∃ o', f o = some o' ∧ o'.produced = ⟨name.getD (o.elim "" Order.bookName), data⟩ ∧
      ∀ old, o = some old → old.isEnriched = true → o'.hash = old.hash ∧ o'.onChainData = old.onChainData)

namespace Course

variable {f : Option Order → Option Order}

/-- an upsert, and the attempt that follows it -/
theorem upsert (h : Course f) (g : Registry) (hash : String) (bookName : Option String) (data : Json.Value) :
    Course fun o => some (g.settled (Store.rewrite bookName data ((f o).getD { hash }))) := by
  cases h with
  | idle h =>
    refine .restated bookName data fun o => ⟨_, rfl, ?_, ?_⟩
    · rw [Registry.settled_produced, h]
      cases o <;> rfl
    · rintro old rfl he
      have he' : (Store.rewrite bookName data old).isEnriched = true := he
      rw [h, Option.getD_some, Registry.settled_of_enriched g he']
      exact ⟨rfl, rfl⟩
  | anew x h => exact .anew _ fun o => by rw [h]
  | restated name data' h =>
    refine .restated (bookName.or name) data fun o => ?_
    obtain ⟨o', ho', hproduced, hkeeps⟩ := h o
    refine ⟨_, rfl, ?_, ?_⟩
    · have hname : o'.bookName = name.getD (o.elim "" Order.bookName) := congrArg Produced.bookName hproduced
      rw [Registry.settled_produced, ho']
      show Produced.mk (bookName.getD o'.bookName) data = _
      rw [hname, Option.getD_or]
    · intro old hold he
      obtain ⟨hhash, hdata⟩ := hkeeps old hold he
      have he' : (Store.rewrite bookName data o').isEnriched = true := by
        rw [Order.isEnriched] at he ⊢
        exact (congrArg _ hdata).trans he
      rw [ho', Option.getD_some, Registry.settled_of_enriched g he']
      exact ⟨hhash, hdata⟩

/-- **Updates of one hash** do one of the three. -/
theorem settleAll (g : Registry) (key : String) (as : List Action) : Course (Action.settleAll g key as) := by
  induction as using List.reverseRecOn with
  | nil => exact .idle fun _ => rfl
  | append_singleton as a ih =>
    have hsnoc : Action.settleAll g key (as ++ [a]) = fun o => a.settle g key (Action.settleAll g key as o) := by
      funext o
      simp [Action.settleAll, List.foldl_append]
    rw [hsnoc]
    by_cases hk : a.hash = key
    · cases a with
      | delete hash => exact .anew none fun o => if_pos hk
      | upsert hash bookName data =>
        have hupsert : ∀ o, Action.settle g key (.upsert hash bookName data) o =
            some (g.settled (Store.rewrite bookName data (o.getD { hash }))) := by
          intro o
          simp only [Action.settle, Action.on, if_pos (show hash = key from hk), Option.map_some]
        simp only [hupsert]
        exact ih.upsert g hash bookName data
      | skip hash => exact ih
    · simp only [Action.settle_of_ne hk]
      exact ih

/-- **The second time** changes nothing that producers say, and no complete order. -/
theorem again (h : Course f) (o : Option Order) :
    (f (f o)).map Order.produced = (f o).map Order.produced ∧
      ∀ x, f o = some x → x.isEnriched = true → f (f o) = some x := by
  cases h with
  | idle h =>
    rw [h (f o)]
    exact ⟨rfl, fun x hx _ => hx⟩
  | anew x h =>
    rw [h (f o), h o]
    exact ⟨rfl, fun x hx _ => hx⟩
  | restated name data h =>
    obtain ⟨once, honce, hproduced, -⟩ := h o
    obtain ⟨twice, htwice, hproduced', hkeeps⟩ := h (some once)
    have hname : once.bookName = name.getD (o.elim "" Order.bookName) := congrArg Produced.bookName hproduced
    have hsame : twice.produced = once.produced := by
      rw [hproduced', hproduced, Option.elim_some, hname]
      cases name <;> rfl
    rw [honce, htwice]
    refine ⟨congrArg some hsame, fun x hx he => ?_⟩
    cases hx
    obtain ⟨hhash, hdata⟩ := hkeeps once rfl he
    have hbook : twice.bookName = once.bookName := congrArg Produced.bookName hsame
    have hoff : twice.offChainData = once.offChainData := congrArg Produced.offChainData hsame
    cases twice
    cases once
    simp_all

end Course

/-! ## Runs -/

namespace Store.Awaits

variable {s : Store} {es es' : List LogEntry}

theorem left (h : s.Awaits (es ++ es')) : s.Awaits es :=
  ⟨fun e he => h.ahead e (List.mem_append_left _ he), (List.pairwise_append.1 h.rising).1⟩

/-- the entries that follow are still to come when the first ones are done -/
theorem steps (h : s.Awaits (es ++ es')) (g : Registry) : (es.foldl (Store.step g) s).Awaits es' := by
  induction es generalizing s with
  | nil => exact h
  | cons e es ih => exact ih (h.step g)

end Store.Awaits

/-- the same payloads ask for the same updates -/
theorem updatesOf_of_payloads {es es' : List LogEntry} (h : es.map LogEntry.payload = es'.map LogEntry.payload)
    (key : String) : updatesOf key es = updatesOf key es' := by
  have hactions : ∀ es : List LogEntry, es.filterMap LogEntry.action? =
      (es.map LogEntry.payload).filterMap fun payload => (LogEntry.mk .zero payload).action? := by
    intro es
    rw [List.filterMap_map]
    exact List.filterMap_congr fun e _ => LogEntry.action?_of_payload rfl
  rw [updatesOf, updatesOf, hactions, hactions es', h]

/-- **A batch that comes a second time does no harm.** After any payloads under fresh ids, and then the same payloads
again under fresh ids, there are the same orders with the same names and off-chain data as after the first time, and
every order that was complete then is as it was. -/
theorem processAll_again {g : Registry} (hq : g.Quiet) (r : Replica) {es again : List LogEntry}
    (hsame : again.map LogEntry.payload = es.map LogEntry.payload) (h : r.store.Awaits (es ++ again)) :
    let first := r.processAll g es
    let second := first.processAll g again
    ∀ hash, second.store.produced? hash = first.store.produced? hash ∧
      ∀ o, first.store.get? hash = some o → o.isEnriched = true → second.store.get? hash = some o := by
  intro first second hash
  have hfirst : first.store.get? hash = Action.settleAll g hash (updatesOf hash es) (r.store.get? hash) := by
    rw [Replica.processAll_store hq, Store.get?_steps h.left]
  have hsecond : second.store.get? hash = Action.settleAll g hash (updatesOf hash es) (first.store.get? hash) := by
    rw [Replica.processAll_store hq, Replica.processAll_store hq, Store.get?_steps (h.steps g),
      updatesOf_of_payloads hsame]
  rw [Store.produced?, Store.produced?, hsecond, hfirst]
  exact (Course.settleAll g hash (updatesOf hash es)).again (r.store.get? hash)

/-- an order is deleted, comes back, and then gets other data but no name -/
def batch (first second third : EntryId) : List LogEntry :=
  [.withdrawing first, .placing second, ⟨third, some "\x7b\"orderHash\":\"a\",\"offChainData\":3\x7d"⟩]

/-- The order is asked about in both passes, and it stays as it is, with the name that it inherited. -/
theorem processAll_again_batch :
    let g := answering ⟨.text "open", 1, 2⟩
    let es := batch ⟨1, 0⟩ ⟨2, 0⟩ ⟨3, 0⟩
    let again := batch ⟨4, 0⟩ ⟨5, 0⟩ ⟨6, 0⟩
    let first := ({} : Replica).processAll g es
    again.map LogEntry.payload = es.map LogEntry.payload ∧ ({} : Replica).store.Awaits (es ++ again) ∧
      (first.processAll g again).asked.length = 2 ∧
      ∃ o, first.store.get? "a" = some o ∧ o.isEnriched = true ∧ o.bookName = "F1" ∧
        (first.processAll g again).store.get? "a" = some o := by
  dsimp only
  have hq : (answering ⟨.text "open", 1, 2⟩).Quiet := answering_quiet _
  have hsame : (batch ⟨4, 0⟩ ⟨5, 0⟩ ⟨6, 0⟩).map LogEntry.payload =
      (batch ⟨1, 0⟩ ⟨2, 0⟩ ⟨3, 0⟩).map LogEntry.payload := by decide +kernel
  have hawaits : ({} : Replica).store.Awaits (batch ⟨1, 0⟩ ⟨2, 0⟩ ⟨3, 0⟩ ++ batch ⟨4, 0⟩ ⟨5, 0⟩ ⟨6, 0⟩) := by
    decide +kernel
  have hfound : ((({} : Replica).processAll (answering ⟨.text "open", 1, 2⟩) (batch ⟨1, 0⟩ ⟨2, 0⟩ ⟨3, 0⟩)).store.get?
      "a").any (fun o => o.isEnriched && o.bookName = "F1") = true := by decide +kernel
  obtain ⟨o, ho, htrue⟩ := (Option.any_eq_true _ _).1 hfound
  rw [Bool.and_eq_true, decide_eq_true_iff] at htrue
  have hagain := (processAll_again hq {} hsame hawaits "a").2 o ho htrue.1
  exact ⟨hsame, hawaits, by decide +kernel, o, ho, htrue.1, htrue.2, hagain⟩

end ReplicatedOrders

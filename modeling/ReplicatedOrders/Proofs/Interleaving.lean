/-
Interleavings: one consumer, calls of the enrichment and images, all on one replica, in any order of their steps.

A party does its steps one after the other; a step is a critical section of the store, a question to a source, or an
append. `Scene.run` lets the parties take turns as a list of choices says, and lets new calls begin at any time. The
sources may answer differently at every turn, but they do not write to the store.
- `frame_run`: a step of an enrichment or of an image says nothing about producers, and an image shows the store as it
  is.
- `step_inv`, `run_inv`: the store agrees at all times with the entries that the consumer has begun.
- `run_images_consistent`: every image shows exactly the entries up to its own cursor.
-/
import ReplicatedOrders.Proofs.Sections
import ReplicatedOrders.Replica.Task

namespace ReplicatedOrders

/-! ## Parties that take turns -/

/-- a party: the step that it is at, if any, and the first steps of the work that follows -/
structure Party where
  current : Option Step := none
  todo : List Step := []

/-- one turn: do the step at hand, or take up the next piece of work -/
def Party.turn (g : Registry) (r : Replica) (p : Party) : Replica × Party :=
  match p.current, p.todo with
  | some step, _ =>
    match step.run g r with
    | (r, .ok next) => (r, { p with current := some next })
    | (r, .error _) => (r, { p with current := none })
  | none, [] => (r, p)
  | none, step :: rest => (r, ⟨some step, rest⟩)

structure Scene where
  replica : Replica
  consumer : Party
  /-- calls of the enrichment and images that have begun -/
  others : List Party := []

/-- what happens next -/
inductive Choice where
  /-- a turn of the consumer -/
  | consumer (g : Registry)
  /-- a turn of another party -/
  | other (i : Nat) (g : Registry)
  /-- an attempt for one hash begins -/
  | enrich (hash : String)
  /-- a round over all orders begins; it takes the hashes in any order -/
  | enrichAll (order : List String)
  | publish (createdAt : Int64)

/-- the sources of a turn do not write to the store -/
def Choice.Quiet : Choice → Prop
  | consumer g | other _ g => g.Quiet
  | _ => True

namespace Scene

/-- the consumer in front of a log -/
def start (r : Replica) (es : List LogEntry) : Scene := ⟨r, ⟨none, es.map .accept⟩, []⟩

def step (s : Scene) : Choice → Scene
  | .consumer g => let (r, p) := s.consumer.turn g s.replica; { s with replica := r, consumer := p }
  | .other i g =>
    match s.others[i]? with
    | none => s
    | some p => let (r, p) := p.turn g s.replica; { s with replica := r, others := s.others.set i p }
  | .enrich hash => { s with others := s.others ++ [⟨none, [.lookup hash]⟩] }
  | .enrichAll order =>
    if order.Perm s.replica.store.hashes then { s with others := s.others ++ [⟨none, order.map .lookup⟩] } else s
  | .publish createdAt => { s with others := s.others ++ [⟨none, [.publish createdAt]⟩] }

def run (s : Scene) (choices : List Choice) : Scene := choices.foldl step s

end Scene

/-! ## Steps that are not the section of an entry -/

/-- the steps of an enrichment and of an image -/
def Step.isFrame : Step → Bool
  | lookup .. | ask .. | merge .. | announce .. | publish .. => true
  | _ => false

/-- a line of the snapshot stream that shows a store -/
def LogLine.Shows (line : LogLine) (s : Store) : Prop :=
  ∃ createdAt, line.entry.payload = some (s.snapshot createdAt).text

/-- `r'` comes from `r` by a step that is not the section of an entry -/
structure Replica.Framed (r r' : Replica) : Prop where
  agree : r'.store.Agree r.store
  images : ∃ lines, r'.snapshots.lines = r.snapshots.lines ++ lines ∧ ∀ line ∈ lines, line.Shows r.store

theorem Replica.Framed.same {r r' : Replica} (hs : r'.store.Agree r.store) (hl : r'.snapshots = r.snapshots) :
    r.Framed r' := ⟨hs, [], by rw [hl, List.append_nil], by simp⟩

theorem frame_publish (r : Replica) (createdAt : Int64) : r.Framed (r.publish createdAt).1 := by
  obtain ⟨hs, hl⟩ := r.publish_cases createdAt
  refine ⟨by rw [hs]; exact Store.Agree.refl _, ?_⟩
  rcases hl with hl | hl
  · exact ⟨[], by rw [hl, List.append_nil], by simp⟩
  · refine ⟨_, hl, fun line hline => ?_⟩
    rw [List.mem_singleton.1 hline]
    exact ⟨createdAt, rfl⟩

/-- **A step of an enrichment or of an image** leaves the cursor and what producers said, an image shows the store as it
is at that moment, and such a step follows such a step. -/
theorem frame_run {g : Registry} (hg : g.Quiet) (r : Replica) {step : Step} (h : step.isFrame = true) :
    r.Framed (step.run g r).1 ∧ ∀ next, (step.run g r).2 = .ok next → next.isFrame = true := by
  cases step with
  | lookup hash =>
    simp only [Step.run]
    split
    · exact ⟨.same (Store.Agree.refl _) rfl, by simp⟩
    · exact ⟨.same (Store.Agree.refl _) rfl, fun next hn => by cases hn; rfl⟩
  | ask hash o =>
    obtain ⟨hst, hsn, -⟩ := r.ask_store g o
    simp only [Step.run, Replica.ask_writes hg r o, Step.afterWrites]
    split
    · refine ⟨.same ?_ hsn, by simp⟩
      show (r.ask g o).1.store.Agree r.store
      rw [hst]; exact Store.Agree.refl _
    · refine ⟨.same ?_ hsn, fun next hn => by cases hn; rfl⟩
      rw [hst]; exact Store.Agree.refl _
  | merge hash data =>
    obtain ⟨hst, hsn, -⟩ := r.merge_store hash data
    have hag : (r.merge hash data).1.store.Agree r.store := by rw [hst]; exact Store.Agree.merge _ _ _
    simp only [Step.run]
    split <;> rename_i heq <;> rw [heq] at hag hsn
    · exact ⟨.same hag hsn, fun next hn => by cases hn; rfl⟩
    · exact ⟨.same hag hsn, by simp⟩
  | announce hash data => exact ⟨.same (Store.Agree.refl _) rfl, by simp [Step.run]⟩
  | publish createdAt =>
    have hf := frame_publish r createdAt
    simp only [Step.run]
    split <;> rename_i heq <;> rw [heq] at hf <;> exact ⟨hf, by simp⟩
  | _ => cases h

/-- the section of an entry, and at most an attempt after it -/
theorem accept_run (g : Registry) (r : Replica) (e : LogEntry) :
    ((Step.accept e).run g r).1 = (r.accept e).1 ∧
      ∀ next, ((Step.accept e).run g r).2 = .ok next → next.isFrame = true := by
  simp only [Step.run]
  split <;> rename_i heq <;> rw [heq]
  · exact ⟨rfl, by simp⟩
  · exact ⟨rfl, fun next hn => by cases hn; rfl⟩

/-! ## The invariant -/

/-- a party that only enriches or writes images -/
def Party.Frames (p : Party) : Prop := (∀ step ∈ p.current, step.isFrame = true) ∧ ∀ step ∈ p.todo, step.isFrame = true

/-- a consumer that still has these entries before it: it enriches the one before them, or it has taken up the first -/
inductive Party.Before : Party → List LogEntry → Prop where
  | between {current : Option Step} {rest : List LogEntry} (h : ∀ step ∈ current, step.isFrame = true) :
    Before ⟨current, rest.map .accept⟩ rest
  | at (e : LogEntry) (rest : List LogEntry) : Before ⟨some (.accept e), rest.map .accept⟩ (e :: rest)

theorem Party.Frames.turn {g : Registry} (hg : g.Quiet) (r : Replica) {p : Party} (h : p.Frames) :
    r.Framed (p.turn g r).1 ∧ (p.turn g r).2.Frames := by
  obtain ⟨current, todo⟩ := p
  obtain ⟨hcur, htodo⟩ := h
  cases current with
  | some step =>
    obtain ⟨hf, hnext⟩ := frame_run hg r (hcur step rfl)
    simp only [Party.turn]
    split <;> rename_i heq <;> rw [heq] at hf hnext
    · next next => exact ⟨hf, fun step hs => by cases hs; exact hnext next rfl, htodo⟩
    · exact ⟨hf, by simp, htodo⟩
  | none =>
    cases todo with
    | nil => exact ⟨.same (Store.Agree.refl _) rfl, ⟨hcur, htodo⟩⟩
    | cons step rest =>
      refine ⟨.same (Store.Agree.refl _) rfl, ⟨fun s hs => ?_, fun s hs => htodo s (List.mem_cons_of_mem _ hs)⟩⟩
      cases hs
      exact htodo step List.mem_cons_self

/-- a turn of the consumer: nothing that producers said, or the section of the first entry before it -/
theorem Party.Before.turn {g : Registry} (hg : g.Quiet) (r : Replica) {p : Party} {rest : List LogEntry}
    (h : p.Before rest) :
    r.Framed (p.turn g r).1 ∧ (p.turn g r).2.Before rest ∨
      ∃ e rest', rest = e :: rest' ∧ (p.turn g r).1 = (r.accept e).1 ∧ (p.turn g r).2.Before rest' := by
  cases h with
  | @between current _ hcur =>
    cases current with
    | some step =>
      obtain ⟨hf, hnext⟩ := frame_run hg r (hcur step rfl)
      refine Or.inl ?_
      simp only [Party.turn]
      split <;> rename_i heq <;> rw [heq] at hf hnext
      · next next => exact ⟨hf, .between fun step hs => by cases hs; exact hnext next rfl⟩
      · exact ⟨hf, .between (by simp)⟩
    | none =>
      cases rest with
      | nil => exact Or.inl ⟨.same (Store.Agree.refl _) rfl, .between hcur⟩
      | cons e rest => exact Or.inl ⟨.same (Store.Agree.refl _) rfl, .at e rest⟩
  | «at» e rest =>
    obtain ⟨hr, hnext⟩ := accept_run g r e
    refine Or.inr ⟨e, rest, rfl, ?_⟩
    simp only [Party.turn]
    split <;> rename_i heq <;> rw [heq] at hr hnext
    · next next => exact ⟨hr, .between fun step hs => by cases hs; exact hnext next rfl⟩
    · exact ⟨hr, .between (by simp)⟩

/-- a line shows what the entries of `es` up to its cursor, and no others, make of the store `s` -/
def LogLine.ShowsPrefix (line : LogLine) (s : Store) (es : List LogEntry) : Prop :=
  ∃ image : Snapshot, line.entry.payload = some image.text ∧
    let shown := s.acceptAll (es.filter fun e => ¬ image.cursor < e.id)
    image.cursor = shown.cursor ∧ ∀ hash, image.orders[hash]?.map Order.produced = shown.produced? hash

/-- the state of a scene that began with the replica `r` and the log `es` -/
structure Scene.Inv (r : Replica) (es : List LogEntry) (s : Scene) : Prop where
  /-- the store agrees with the entries that the consumer does not have before it any more -/
  consumer : ∃ done rest, es = done ++ rest ∧ s.consumer.Before rest ∧ s.replica.store.Agree (r.store.acceptAll done)
  others : ∀ p ∈ s.others, p.Frames
  images : ∃ lines, s.replica.snapshots.lines = r.snapshots.lines ++ lines ∧ ∀ line ∈ lines, line.ShowsPrefix r.store es

section

variable {r : Replica} {es : List LogEntry}

/-- the entries up to the cursor of a prefix of a rising log are that prefix -/
theorem filter_cursor_eq {done rest : List LogEntry} (hinc : (done ++ rest).Pairwise fun a b => a.id < b.id)
    (hc : ∀ e ∈ done ++ rest, r.store.cursor < e.id) :
    ((done ++ rest).filter fun e => ¬ (r.store.acceptAll done).cursor < e.id) = done := by
  obtain ⟨-, -, hacross⟩ := List.pairwise_append.1 hinc
  have hdone : ∀ e ∈ done, ¬ (r.store.acceptAll done).cursor < e.id := by
    intro e he hlt
    exact EntryId.lt_irrefl _ (((r.store.cursor_acceptAll_lt_iff done e.id).1 hlt).2 e he)
  have hrest : ∀ e ∈ rest, (r.store.acceptAll done).cursor < e.id := by
    intro e he
    rw [r.store.cursor_acceptAll_lt_iff done e.id]
    exact ⟨hc e (List.mem_append_right _ he), fun d hd => hacross d hd e he⟩
  rw [List.filter_append, List.filter_eq_self.2 (by simpa using hdone), List.filter_eq_nil_iff.2 (by simpa using hrest),
    List.append_nil]

/-- an image of a store that agrees with a prefix of the log shows that prefix -/
theorem showsPrefix_of_shows {done rest : List LogEntry} {t : Store} {line : LogLine}
    (hinc : (done ++ rest).Pairwise fun a b => a.id < b.id) (hc : ∀ e ∈ done ++ rest, r.store.cursor < e.id)
    (ht : t.Agree (r.store.acceptAll done)) (h : line.Shows t) : line.ShowsPrefix r.store (done ++ rest) := by
  obtain ⟨createdAt, hp⟩ := h
  refine ⟨t.snapshot createdAt, hp, ?_⟩
  have hcur : (t.snapshot createdAt).cursor = (r.store.acceptAll done).cursor := ht.cursor
  simp only [hcur, filter_cursor_eq hinc hc, true_and]
  exact ht.produced

variable (hinc : es.Pairwise fun a b => a.id < b.id) (hc : ∀ e ∈ es, r.store.cursor < e.id)

include hinc hc

/-- a framed step keeps the consumer's agreement, and its images show the prefix that the consumer has reached -/
theorem Scene.Inv.framed {s : Scene} (h : s.Inv r es) {done rest : List LogEntry} (hes : es = done ++ rest)
    (hag : s.replica.store.Agree (r.store.acceptAll done)) {r' : Replica} {consumer : Party} {others : List Party}
    (hf : s.replica.Framed r') (hb : consumer.Before rest) (hoth : ∀ p ∈ others, p.Frames) :
    Scene.Inv r es ⟨r', consumer, others⟩ := by
  subst hes
  obtain ⟨old, hold, hshow⟩ := h.images
  obtain ⟨new, hnew, hfresh⟩ := hf.images
  refine ⟨⟨done, rest, rfl, hb, hf.agree.trans hag⟩, hoth, old ++ new, ?_, fun line hline => ?_⟩
  · rw [← List.append_assoc, ← hold]; exact hnew
  · rcases List.mem_append.1 hline with hl | hl
    · exact hshow line hl
    · exact showsPrefix_of_shows hinc hc hag (hfresh line hl)

/-- **One choice keeps the invariant.** Only the section of an entry moves the consumer on. -/
theorem Scene.step_inv {s : Scene} (h : s.Inv r es) {c : Choice} (hq : c.Quiet) : (s.step c).Inv r es := by
  have hnew : ∀ p : Party, p.Frames → ∀ q ∈ s.others ++ [p], q.Frames := by
    intro p hp q hq
    rcases List.mem_append.1 hq with hq | hq
    · exact h.others q hq
    · rw [List.mem_singleton.1 hq]; exact hp
  have same : s.replica.Framed s.replica := .same (Store.Agree.refl _) rfl
  obtain ⟨done, rest, hes, hb, hag⟩ := h.consumer
  cases c with
  | consumer g =>
    rcases hb.turn hq s.replica with ⟨hf, hb'⟩ | ⟨e, rest', rfl, hr, hb'⟩
    · exact h.framed hinc hc hes hag hf hb' h.others
    · refine ⟨⟨done ++ [e], rest', by rw [hes]; simp, hb', ?_⟩, h.others, ?_⟩
      · show ((s.consumer.turn g s.replica).1).store.Agree _
        rw [hr, Replica.accept_store, Store.acceptAll_snoc]
        exact hag.accept e
      · show ∃ lines, ((s.consumer.turn g s.replica).1).snapshots.lines = _ ∧ _
        rw [hr, (s.replica.accept_logs e).2.1]
        exact h.images
  | other i g =>
    simp only [Scene.step]
    split
    · exact h
    · next p hp =>
      have hframes : p.Frames := h.others p (List.mem_of_getElem? hp)
      obtain ⟨hf, hp'⟩ := hframes.turn hq s.replica
      refine h.framed hinc hc hes hag hf hb fun q hq => ?_
      rcases List.mem_or_eq_of_mem_set hq with hq | rfl
      · exact h.others q hq
      · exact hp'
  | enrich hash => exact h.framed hinc hc hes hag same hb (hnew _ ⟨by simp, by simp [Step.isFrame]⟩)
  | enrichAll order =>
    simp only [Scene.step]
    split
    · refine h.framed hinc hc hes hag same hb (hnew _ ⟨by simp, fun step hs => ?_⟩)
      obtain ⟨hash, -, rfl⟩ := List.mem_map.1 hs
      rfl
    · exact h
  | publish createdAt => exact h.framed hinc hc hes hag same hb (hnew _ ⟨by simp, by simp [Step.isFrame]⟩)

theorem Scene.run_inv (choices : List Choice) (hq : ∀ c ∈ choices, c.Quiet) :
    ((Scene.start r es).run choices).Inv r es := by
  have hstart : (Scene.start r es).Inv r es :=
    ⟨⟨[], es, rfl, .between (by simp), Store.Agree.refl _⟩, by simp [Scene.start], [], by simp [Scene.start], by simp⟩
  unfold Scene.run
  induction choices using List.reverseRecOn with
  | nil => exact hstart
  | append_singleton choices c ih =>
    rw [List.foldl_append]
    exact Scene.step_inv hinc hc (ih fun d hd => hq d (List.mem_append_left _ hd)) (hq c (by simp))

end

/-- **Images are consistent under every interleaving.** Every image that gets into the stream shows exactly the entries
up to its own cursor, and writing one changes neither orders nor cursor nor totals. -/
theorem run_images_consistent (r : Replica) (es : List LogEntry) (hinc : es.Pairwise fun a b => a.id < b.id)
    (hc : ∀ e ∈ es, r.store.cursor < e.id) (choices : List Choice) (hq : ∀ c ∈ choices, c.Quiet) :
    let s := (Scene.start r es).run choices
    (∃ images, s.replica.snapshots.lines = r.snapshots.lines ++ images ∧
        ∀ line ∈ images, line.ShowsPrefix r.store es) ∧
      ∀ createdAt, (s.replica.publish createdAt).1.store = s.replica.store :=
  ⟨(Scene.run_inv hinc hc choices hq).images, fun createdAt => (Replica.publish_cases _ createdAt).1⟩

/-- two upserts of one order -/
def renewed : List LogEntry :=
  [⟨⟨1, 0⟩, some "\x7b\"orderHash\":\"a\",\"orderBookName\":\"F1\",\"offChainData\":1\x7d"⟩,
    ⟨⟨2, 0⟩, some "\x7b\"orderHash\":\"a\",\"offChainData\":2\x7d"⟩]

/-- an image and an attempt come between the sections of the two upserts -/
def betweenSections : List Choice :=
  [.publish 0, .consumer ∅, .consumer ∅, .enrich "a", .other 0 ∅, .other 1 ∅, .other 1 ∅, .other 0 ∅, .consumer ∅,
    .other 1 (answering ⟨.null, 1, 2⟩), .other 1 ∅, .consumer ∅, .consumer ∅, .consumer ∅]

theorem run_images_consistent_midway :
    (renewed.Pairwise fun a b => a.id < b.id) ∧ (∀ e ∈ renewed, ({} : Replica).store.cursor < e.id) ∧
      (∀ c ∈ betweenSections, c.Quiet) ∧
      let s := (Scene.start {} renewed).run betweenSections
      s.replica.store.cursor = ⟨2, 0⟩ ∧ ∃ line, s.replica.snapshots.lines = [line] ∧ line.ShowsPrefix {} renewed := by
  have hinc : renewed.Pairwise fun a b => a.id < b.id := by decide
  have hc : ∀ e ∈ renewed, ({} : Replica).store.cursor < e.id := by decide
  have hq : ∀ c ∈ betweenSections, c.Quiet := by
    simp [betweenSections, Choice.Quiet, Registry.quiet_empty, answering_quiet]
  obtain ⟨⟨images, hl, hshow⟩, -⟩ := run_images_consistent {} renewed hinc hc betweenSections hq
  have hone : ((Scene.start {} renewed).run betweenSections).replica.snapshots.lines.length = 1 := by decide +kernel
  obtain ⟨line, hline⟩ := List.length_eq_one_iff.1 hone
  have himg : line ∈ images := by
    have : images = [line] := by simpa [hl] using hline
    simp [this]
  exact ⟨hinc, hc, hq, by decide +kernel, line, hline, hshow line himg⟩

end ReplicatedOrders

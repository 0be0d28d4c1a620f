/-
Acceptance: the texts of the grammar that have a value, and what the value is.

A reader of values takes a text of the grammar unless it breaks one of the reader's limits: arrays and objects nest at
most `maxDepth` levels, a number as it is computed from its digits is not beyond every finite number, and half of a
surrogate pair does not stand alone.
A field of an object is read from the last member with its name.
- `Doc.value?_isSome_iff`: the documents that have a value.
- `Doc.get?_of_memberValues?`: a field comes from the last member with its name.
- `parse?_eq_some_iff`, `parse?_eq_none_iff`: the texts that have a value, and those that have none.
-/
import ReplicatedOrders.Proofs.Json.Canonical
import ReplicatedOrders.Proofs.Json.Substitute

namespace ReplicatedOrders.Json

namespace Doc

/-! ## Depth -/

/-- levels of arrays and objects around the deepest leaf -/
def depth : Doc → Nat
  | array ds => depthItems ds + 1
  | object ms => depthMembers ms + 1
  | _ => 0
where
  depthItems : List Doc → Nat
    | [] => 0
    | d :: ds => max (depth d) (depthItems ds)
  depthMembers : List (Option String × Doc) → Nat
    | [] => 0
    | (_, d) :: ms => max (depth d) (depthMembers ms)

theorem depthItems_le_iff (ds : List Doc) (n : Nat) : depth.depthItems ds ≤ n ↔ ∀ d ∈ ds, d.depth ≤ n := by
  induction ds with
  | nil => simp [depth.depthItems]
  | cons d ds ih => simp [depth.depthItems, ih]

theorem depthMembers_le_iff (ms : List (Option String × Doc)) (n : Nat) :
    depth.depthMembers ms ≤ n ↔ ∀ m ∈ ms, m.2.depth ≤ n := by
  induction ms with
  | nil => simp [depth.depthMembers]
  | cons m ms ih => obtain ⟨k, d⟩ := m; simp [depth.depthMembers, ih]

/-! ## Documents with a value -/

theorem complete_array_iff {ds : List Doc} : (array ds).Complete ↔ ∀ d ∈ ds, d.Complete := by
  constructor
  · intro h
    cases h with
    | array h => exact h
  · exact .array

theorem complete_object_iff {ms : List (Option String × Doc)} :
    (object ms).Complete ↔ ∀ m ∈ ms, m.1.isSome = true ∧ m.2.Complete := by
  constructor
  · intro h
    generalize hd : object ms = d at h
    cases h with
    | @record fields h =>
      obtain rfl : ms = fields.map fun f => (some f.1, f.2) := object.inj hd
      intro m hm
      obtain ⟨f, hf, rfl⟩ := List.mem_map.1 hm
      exact ⟨rfl, h f hf⟩
    | _ => cases hd
  · intro h
    have hfields : ∃ fields : List (String × Doc), ms = fields.map fun f => (some f.1, f.2) := by
      induction ms with
      | nil => exact ⟨[], rfl⟩
      | cons m ms ih =>
        obtain ⟨fields, rfl⟩ := ih fun n hn => h n (List.mem_cons_of_mem m hn)
        obtain ⟨key, hkey⟩ := Option.isSome_iff_exists.1 (h m List.mem_cons_self).1
        exact ⟨(key, m.2) :: fields, by rw [List.map_cons, ← hkey]⟩
    obtain ⟨fields, rfl⟩ := hfields
    exact .record fun f hf => (h _ (List.mem_map_of_mem hf)).2

theorem itemValues?_isSome_iff {levels : Nat} {ds : List Doc} :
    (itemValues? levels ds).isSome = true ↔ ∀ d ∈ ds, (d.value? levels).isSome = true := by
  induction ds with
  | nil => simp [itemValues?]
  | cons d ds ih =>
    rw [List.forall_mem_cons, ← ih, itemValues?]
    cases d.value? levels <;> cases itemValues? levels ds <;> simp

theorem memberValues?_isSome_iff {levels : Nat} {ms : List (Option String × Doc)} :
    (memberValues? levels ms).isSome = true ↔ ∀ m ∈ ms, m.1.isSome = true ∧ (m.2.value? levels).isSome = true := by
  induction ms with
  | nil => simp [memberValues?]
  | cons m ms ih =>
    obtain ⟨key, d⟩ := m
    rw [List.forall_mem_cons, ← ih, memberValues?]
    cases key <;> cases d.value? levels <;> cases memberValues? levels ms <;> simp

/-- **Documents with a value.** Every string, number and key has one, and the document nests no deeper than the reader
goes. -/
theorem value?_isSome_iff {levels : Nat} {d : Doc} :
    (d.value? levels).isSome = true ↔ d.Complete ∧ d.depth ≤ levels := by
  -- a container hands one level less to what it holds
  induction levels generalizing d with
  | zero =>
    cases d with
    | null | bool | number | text => exact ⟨fun _ => ⟨by constructor, Nat.zero_le _⟩, fun _ => rfl⟩
    | unreadable | cut => exact ⟨fun h => (by cases h), fun h => (by cases h.1)⟩
    | array | object => exact ⟨fun h => (by cases h), fun h => absurd h.2 (Nat.not_succ_le_zero _)⟩
  | succ levels ih =>
    cases d with
    | null | bool | number | text => exact ⟨fun _ => ⟨by constructor, Nat.zero_le _⟩, fun _ => rfl⟩
    | unreadable | cut => exact ⟨fun h => (by cases h), fun h => (by cases h.1)⟩
    | array ds =>
      rw [value?, Option.isSome_map, itemValues?_isSome_iff, complete_array_iff, depth, Nat.add_le_add_iff_right,
        depthItems_le_iff]
      simp only [ih, forall_and]
    | object ms =>
      rw [value?, Option.isSome_map, memberValues?_isSome_iff, complete_object_iff, depth, Nat.add_le_add_iff_right,
        depthMembers_le_iff]
      simp only [ih, forall_and, and_assoc]

/-- the limits of the reader: every number and every string has a value, and so many levels may be nested -/
def WithinLimits (d : Doc) : Prop := d.Complete ∧ d.depth ≤ maxDepth

/-! ## Fields -/

/-- the value of the last member with a name -/
def field? (levels : Nat) (ms : List (Option String × Doc)) (name : String) : Option Value :=
  (ms.reverse.lookup (some name)).bind (value? levels)

/-- a field comes from the last member with its name -/
theorem get?_of_memberValues? {levels : Nat} {ms : List (Option String × Doc)} {vs : Members}
    (h : memberValues? levels ms = some vs) (name : String) :
    (Members.ofList vs).get? name = field? levels ms name := by
  have hmembers : List.Forall₂ (fun m v => m.1 = some v.1 ∧ m.2.value? levels = some v.2) ms vs := by
    induction ms generalizing vs with
    | nil => cases h; exact .nil
    | cons m ms ih =>
      obtain ⟨key, d⟩ := m
      simp only [memberValues?, Option.bind_eq_bind, Option.bind_eq_some_iff, Option.pure_def,
        Option.some.injEq] at h
      obtain ⟨k, hk, v, hv, vs', hvs, rfl⟩ := h
      exact .cons ⟨hk, hv⟩ (ih hvs)
  rw [Members.get?_ofList, field?]
  have hreverse := List.rel_reverse hmembers
  generalize ms.reverse = ms' at hreverse
  generalize vs.reverse = vs' at hreverse
  induction hreverse with
  | nil => rfl
  | @cons m v ms vs hm _ ih =>
    obtain ⟨key, d⟩ := m
    obtain ⟨k, w⟩ := v
    obtain ⟨rfl, hd⟩ := hm
    rw [Members.get?_cons, List.lookup_cons, ih]
    by_cases hname : name = k
    · simp [hname, hd]
    · simp [hname, beq_false_of_ne hname]

/-! ## Texts with a value -/

theorem Complete.wellFormed {d : Doc} (h : d.Complete) : d.wellFormed = true := by
  induction h with
  | null | bool | number | text => rfl
  | array _ ih =>
    rw [Doc.wellFormed, wellFormedItems_eq_all]
    exact List.all_eq_true.2 ih
  | record _ ih =>
    rw [Doc.record, Doc.wellFormed, wellFormedMembers_eq_all, List.all_map]
    exact List.all_eq_true.2 ih

theorem WrittenAs.unique {d d' : Doc} {t : String} (h : d.WrittenAs t) (h' : d'.WrittenAs t) : d = d' :=
  congrArg Prod.fst ((writtenAs_iff.1 h).1.symm.trans (writtenAs_iff.1 h').1)

end Doc

/-- **Texts with a value.** -/
theorem parse?_eq_some_iff {t : String} {v : Value} :
    parse? t = some v ↔ ∃ d : Doc, d.WrittenAs t ∧ d.value? maxDepth = some v := by
  rw [parse?_eq_some]
  constructor
  · rintro ⟨hvalue, hrest⟩
    have hcomplete := (Doc.value?_isSome_iff.1 (Option.isSome_of_eq_some hvalue)).1
    exact ⟨_, Doc.writtenAs_iff.2 ⟨Prod.ext rfl hrest, hcomplete.wellFormed⟩, hvalue⟩
  · rintro ⟨d, hd, hvalue⟩
    rw [(Doc.writtenAs_iff.1 hd).1]
    exact ⟨hvalue, rfl⟩

/-- **Texts without a value.** They are not written for a document within the limits of the reader. -/
theorem parse?_eq_none_iff {t : String} :
    parse? t = none ↔ ¬ ∃ d : Doc, d.WrittenAs t ∧ d.WithinLimits := by
  rw [Option.eq_none_iff_forall_ne_some]
  constructor
  · rintro hnone ⟨d, hd, hlimits⟩
    obtain ⟨v, hv⟩ := Option.isSome_iff_exists.1 (Doc.value?_isSome_iff.2 hlimits)
    exact hnone v (parse?_eq_some_iff.2 ⟨d, hd, hv⟩)
  · intro hnone v hv
    obtain ⟨d, hd, hvalue⟩ := parse?_eq_some_iff.1 hv
    exact hnone ⟨d, hd, Doc.value?_isSome_iff.1 (Option.isSome_of_eq_some hvalue)⟩

/-- a text without a value is malformed -/
theorem decode_value (t : String) : decode Decoder.value t = (parse? t).elim (.error .malformed) .ok := by
  rw [parse?, decode]
  generalize Doc.ofTokens (lex t) = p
  obtain ⟨d, rest⟩ := p
  cases hd : d.value? maxDepth with
  | none => simp [Decoder.value, hd, bind, Except.bind]
  | some w =>
    cases rest <;>
      simp [Decoder.value, hd, bind, Except.bind, pure, Except.pure, throw, throwThe, MonadExceptOf.throw]

end ReplicatedOrders.Json

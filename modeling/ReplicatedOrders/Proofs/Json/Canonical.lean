/-
Canonical values: the members of every object in rising order of their keys. Every value that is read is canonical, and
normalization keeps it so.
- `value?_ofValue`: a canonical value is read back from its document if it nests no deeper than the reader goes, and
  refused if it does.
- `canonical_of_value?`: reading gives canonical values.
- `canonical_textual`, `noReal_textual`: normalization keeps the order and leaves no real number.
-/
import ReplicatedOrders.Proofs.Json.Written

namespace ReplicatedOrders.Json

/-! ## Members in order -/

namespace Members

theorem put_of_forall_lt {key : String} {v : Value} {ms : Members} (h : ∀ m ∈ ms, m.1 < key) :
    put key v ms = ms ++ [(key, v)] := by
  induction ms with
  | nil => rfl
  | cons m ms ih =>
    have hlt : m.1 < key := h m List.mem_cons_self
    have hge : ¬ key < m.1 := by
      intro hgt
      exact String.lt_irrefl _ (String.lt_trans hlt hgt)
    have hne : key ≠ m.1 := by
      rintro rfl
      exact String.lt_irrefl _ hlt
    rw [put, if_neg hge, if_neg hne, ih fun m' hm' => h m' (List.mem_cons_of_mem m hm'), List.cons_append]

theorem foldl_put_of_rising {acc ms : Members} (h : Rising (acc ++ ms)) :
    ms.foldl (fun acc m => put m.1 m.2 acc) acc = acc ++ ms := by
  induction ms generalizing acc with
  | nil => simp
  | cons m ms ih =>
    have hacc : ∀ a ∈ acc, a.1 < m.1 := by
      intro a ha
      exact (List.pairwise_append.1 h).2.2 a ha m List.mem_cons_self
    rw [List.foldl_cons, put_of_forall_lt hacc, ih (by simpa using h), List.append_assoc, List.singleton_append]

/-- members that stand in order stay as they are -/
theorem ofList_of_rising {ms : Members} (h : ms.Rising) : ofList ms = ms := foldl_put_of_rising h

theorem mem_put {key : String} {v : Value} {ms : Members} {m : String × Value} (h : m ∈ put key v ms) :
    m = (key, v) ∨ m ∈ ms := by
  induction ms with
  | nil => exact Or.inl (List.mem_singleton.1 h)
  | cons n ms ih =>
    simp only [put] at h
    split_ifs at h with h1 h2
    · rcases List.mem_cons.1 h with h | h
      · exact Or.inl h
      · exact Or.inr h
    · rcases List.mem_cons.1 h with h | h
      · exact Or.inl h
      · exact Or.inr (List.mem_cons_of_mem n h)
    · rcases List.mem_cons.1 h with h | h
      · exact Or.inr (h ▸ List.mem_cons_self)
      · exact (ih h).imp_right (List.mem_cons_of_mem n)

theorem rising_put (key : String) (v : Value) {ms : Members} (h : ms.Rising) : (put key v ms).Rising := by
  induction ms with
  | nil => exact List.pairwise_singleton _ _
  | cons n ms ih =>
    obtain ⟨hn, hms⟩ := List.pairwise_cons.1 h
    simp only [put]
    split_ifs with h1 h2
    · refine List.pairwise_cons.2 ⟨fun m hm => ?_, h⟩
      rcases List.mem_cons.1 hm with rfl | hm
      · exact h1
      · exact String.lt_trans h1 (hn m hm)
    · exact List.pairwise_cons.2 ⟨fun m hm => h2 ▸ hn m hm, hms⟩
    · have hgt : n.1 < key := by
        by_contra hle
        exact h2 (String.le_antisymm (String.not_lt.1 hle) (String.not_lt.1 h1))
      refine List.pairwise_cons.2 ⟨fun m hm => ?_, ih hms⟩
      rcases mem_put hm with rfl | hm
      · exact hgt
      · exact hn m hm

theorem foldl_put {acc ms : Members} (h : acc.Rising) :
    (ms.foldl (fun acc m => put m.1 m.2 acc) acc).Rising ∧
      ∀ m ∈ ms.foldl (fun acc m => put m.1 m.2 acc) acc, m ∈ acc ∨ m ∈ ms := by
  induction ms generalizing acc with
  | nil => exact ⟨h, fun m hm => Or.inl hm⟩
  | cons n ms ih =>
    obtain ⟨hr, hm⟩ := ih (rising_put n.1 n.2 h)
    refine ⟨hr, fun m hmem => ?_⟩
    rcases hm m hmem with hm | hm
    · rcases mem_put hm with rfl | hm
      · exact Or.inr List.mem_cons_self
      · exact Or.inl hm
    · exact Or.inr (List.mem_cons_of_mem n hm)

theorem rising_ofList (ms : Members) : (ofList ms).Rising := (foldl_put List.Pairwise.nil).1

theorem mem_of_mem_ofList {ms : Members} {m : String × Value} (h : m ∈ ofList ms) : m ∈ ms := by
  rcases (foldl_put List.Pairwise.nil).2 m h with h | h
  · cases h
  · exact h

theorem get?_cons (key : String) (v : Value) (ms : Members) (name : String) :
    get? ((key, v) :: ms) name = if name = key then some v else ms.get? name := by
  rw [get?, List.lookup_cons]
  by_cases h : name = key
  · simp [h]
  · simp [beq_false_of_ne h, h, get?]

theorem get?_put (key : String) (v : Value) (ms : Members) (name : String) :
    (put key v ms).get? name = if name = key then some v else ms.get? name := by
  induction ms with
  | nil => exact get?_cons key v [] name
  | cons m ms ih =>
    obtain ⟨k, w⟩ := m
    simp only [put]
    split
    · rw [get?_cons]
    · split
      · next hkey =>
        subst hkey
        rw [get?_cons, get?_cons]
        split <;> rfl
      · next hkey =>
        rw [get?_cons, get?_cons, ih]
        by_cases hname : name = key
        · rw [if_neg (hname ▸ hkey), if_pos hname, if_pos hname]
        · rw [if_neg hname, if_neg hname]

/-- of a repeated key the last value counts -/
theorem get?_ofList (ms : Members) (name : String) : (ofList ms).get? name = Members.get? ms.reverse name := by
  induction ms using List.reverseRecOn with
  | nil => rfl
  | append_singleton ms m ih =>
    rw [ofList, List.foldl_append, List.foldl_cons, List.foldl_nil, get?_put, ← ofList, ih, List.reverse_append,
      List.reverse_singleton, List.singleton_append, get?_cons]

theorem mem_of_get? {ms : Members} {key : String} {v : Value} (h : ms.get? key = some v) : (key, v) ∈ ms := by
  obtain ⟨l, l', rfl, -⟩ := List.lookup_eq_some_iff.1 h
  simp

end Members

/-! ## Canonical values -/

namespace Value

/-- the members of every object stand in rising order of their keys -/
inductive Canonical : Value → Prop where
  | null : Canonical .null
  | bool (b : Bool) : Canonical (.bool b)
  | number (n : Number) : Canonical (.number n)
  | text (s : String) : Canonical (.text s)
  | array {vs : List Value} (h : ∀ v ∈ vs, Canonical v) : Canonical (.array vs)
  | object {ms : Members} (hr : ms.Rising) (h : ∀ m ∈ ms, Canonical m.2) : Canonical (.object ms)

/-- no leaf is a real number -/
inductive NoReal : Value → Prop where
  | null : NoReal .null
  | bool (b : Bool) : NoReal (.bool b)
  | whole (n : Whole) : NoReal (.number (.whole n))
  | text (s : String) : NoReal (.text s)
  | array {vs : List Value} (h : ∀ v ∈ vs, NoReal v) : NoReal (.array vs)
  | object {ms : Members} (h : ∀ m ∈ ms, NoReal m.2) : NoReal (.object ms)

theorem depthItems_le_iff (vs : List Value) (n : Nat) : depth.depthItems vs ≤ n ↔ ∀ v ∈ vs, v.depth ≤ n := by
  induction vs with
  | nil => simp [depth.depthItems]
  | cons v vs ih => simp [depth.depthItems, ih]

theorem depthMembers_le_iff (ms : Members) (n : Nat) : depth.depthMembers ms ≤ n ↔ ∀ m ∈ ms, m.2.depth ≤ n := by
  induction ms with
  | nil => simp [depth.depthMembers]
  | cons m ms ih => obtain ⟨k, v⟩ := m; simp [depth.depthMembers, ih]

/-! ## Values as documents -/

theorem ofItems_eq_map (vs : List Value) : Doc.ofItems vs = vs.map Doc.ofValue := by
  induction vs with
  | nil => rfl
  | cons v vs ih => rw [Doc.ofItems, ih, List.map_cons]

theorem ofMembers_eq_map (ms : Members) : Doc.ofMembers ms = ms.map fun m => (some m.1, Doc.ofValue m.2) := by
  induction ms with
  | nil => rfl
  | cons m ms ih => obtain ⟨k, v⟩ := m; rw [Doc.ofMembers, ih, List.map_cons]

theorem ofValue_object (ms : Members) :
    Doc.ofValue (.object ms) = .record (ms.map fun m => (m.1, Doc.ofValue m.2)) := by
  rw [Doc.ofValue, ofMembers_eq_map, Doc.record, List.map_map]
  rfl

/-- induction over a value, its items and the values of its members -/
theorem induction {P : Value → Prop} (null : P .null) (bool : ∀ b, P (.bool b)) (number : ∀ n, P (.number n))
    (text : ∀ s, P (.text s)) (array : ∀ vs, (∀ v ∈ vs, P v) → P (.array vs))
    (object : ∀ ms : Members, (∀ m ∈ ms, P m.2) → P (.object ms)) (v : Value) : P v := by
  refine v.rec (motive_1 := P) (motive_2 := fun vs => ∀ v ∈ vs, P v) (motive_3 := fun ms => ∀ m ∈ ms, P m.2)
    (motive_4 := fun m => P m.2) null bool number text array object ?_ ?_ ?_ ?_ ?_
  · intro v hv
    cases hv
  · intro v vs hv hvs
    exact List.forall_mem_cons.2 ⟨hv, hvs⟩
  · intro m hm
    cases hm
  · intro m ms hm hms
    exact List.forall_mem_cons.2 ⟨hm, hms⟩
  · intro key v hv
    exact hv

/-- every value has a text -/
theorem complete_ofValue (v : Value) : (Doc.ofValue v).Complete := by
  induction v using Value.induction with
  | null => exact .null
  | bool b => exact .bool b
  | number n => exact .number n
  | text s => exact .text s
  | array vs ih =>
    rw [Doc.ofValue, ofItems_eq_map]
    refine .array fun d hd => ?_
    obtain ⟨v, hv, rfl⟩ := List.mem_map.1 hd
    exact ih v hv
  | object ms ih =>
    rw [ofValue_object]
    refine .record fun f hf => ?_
    obtain ⟨m, hm, rfl⟩ := List.mem_map.1 hf
    exact ih m hm

theorem plain_ofValue {v : Value} (h : v.NoReal) : (Doc.ofValue v).Plain := by
  induction h with
  | null => exact .null
  | bool b => exact .bool b
  | whole n => exact .whole n
  | text s => exact .text s
  | @array vs _ ih =>
    rw [Doc.ofValue, ofItems_eq_map]
    refine .array fun d hd => ?_
    obtain ⟨v, hv, rfl⟩ := List.mem_map.1 hd
    exact ih v hv
  | @object ms _ ih =>
    rw [ofValue_object]
    refine .record fun f hf => ?_
    obtain ⟨m, hm, rfl⟩ := List.mem_map.1 hf
    exact ih m hm

theorem itemValues?_ofItems {levels : Nat} {vs : List Value}
    (h : ∀ v ∈ vs, (Doc.ofValue v).value? levels = if v.depth ≤ levels then some v else none) :
    Doc.itemValues? levels (Doc.ofItems vs) = if depth.depthItems vs ≤ levels then some vs else none := by
  induction vs with
  | nil => rfl
  | cons v vs ih =>
    rw [Doc.ofItems, Doc.itemValues?, h v List.mem_cons_self, ih fun v' hv' => h v' (List.mem_cons_of_mem v hv')]
    simp only [depth.depthItems, max_le_iff]
    split_ifs <;> simp_all

theorem memberValues?_ofMembers {levels : Nat} {ms : Members}
    (h : ∀ m ∈ ms, (Doc.ofValue m.2).value? levels = if m.2.depth ≤ levels then some m.2 else none) :
    Doc.memberValues? levels (Doc.ofMembers ms) = if depth.depthMembers ms ≤ levels then some ms else none := by
  induction ms with
  | nil => rfl
  | cons m ms ih =>
    obtain ⟨k, v⟩ := m
    rw [Doc.ofMembers, Doc.memberValues?, h (k, v) List.mem_cons_self, ih fun m hm => h m (List.mem_cons_of_mem _ hm)]
    simp only [depth.depthMembers, max_le_iff]
    split_ifs <;> simp_all

/-- **Reading back.** A canonical value is read from its document exactly if it nests at most so many levels. -/
theorem value?_ofValue {v : Value} (h : v.Canonical) (levels : Nat) :
    (Doc.ofValue v).value? levels = if v.depth ≤ levels then some v else none := by
  induction h generalizing levels with
  | null => simp [Doc.ofValue, Doc.value?, depth]
  | bool b => simp [Doc.ofValue, Doc.value?, depth]
  | number n => simp [Doc.ofValue, Doc.value?, depth]
  | text s => simp [Doc.ofValue, Doc.value?, depth]
  | @array vs _ ih =>
    cases levels with
    | zero => simp [Doc.ofValue, Doc.value?, depth]
    | succ levels =>
      rw [Doc.ofValue, Doc.value?, itemValues?_ofItems fun v hv => ih v hv levels]
      simp only [depth, Nat.add_le_add_iff_right]
      split_ifs <;> rfl
  | @object ms hr _ ih =>
    cases levels with
    | zero => simp [Doc.ofValue, Doc.value?, depth]
    | succ levels =>
      rw [Doc.ofValue, Doc.value?, memberValues?_ofMembers fun m hm => ih m hm levels]
      simp only [depth, Nat.add_le_add_iff_right]
      split_ifs
      · simp [Members.ofList_of_rising hr]
      · rfl

/-! ## What is read -/

theorem mem_of_itemValues? {levels : Nat} {ds : List Doc} {vs : List Value} (h : Doc.itemValues? levels ds = some vs)
    {v : Value} (hv : v ∈ vs) : ∃ d ∈ ds, d.value? levels = some v := by
  induction ds generalizing vs with
  | nil => cases h; cases hv
  | cons d ds ih =>
    simp only [Doc.itemValues?, Option.bind_eq_bind, Option.bind_eq_some_iff, Option.pure_def, Option.some.injEq] at h
    obtain ⟨w, hw, ws, hws, rfl⟩ := h
    rcases List.mem_cons.1 hv with rfl | hv
    · exact ⟨d, List.mem_cons_self, hw⟩
    · obtain ⟨d', hd', h'⟩ := ih hws hv
      exact ⟨d', List.mem_cons_of_mem d hd', h'⟩

theorem mem_of_memberValues? {levels : Nat} {ds : List (Option String × Doc)} {ms : Members}
    (h : Doc.memberValues? levels ds = some ms) {m : String × Value} (hm : m ∈ ms) :
    ∃ d ∈ ds, d.2.value? levels = some m.2 := by
  induction ds generalizing ms with
  | nil => cases h; cases hm
  | cons d ds ih =>
    obtain ⟨key, d⟩ := d
    simp only [Doc.memberValues?, Option.bind_eq_bind, Option.bind_eq_some_iff, Option.pure_def,
      Option.some.injEq] at h
    obtain ⟨k, -, w, hw, ws, hws, rfl⟩ := h
    rcases List.mem_cons.1 hm with rfl | hm
    · exact ⟨(key, d), List.mem_cons_self, hw⟩
    · obtain ⟨d', hd', h'⟩ := ih hws hm
      exact ⟨d', List.mem_cons_of_mem _ hd', h'⟩

/-- **Reading.** Every value that is read is canonical, and nests no deeper than the reader goes. -/
theorem canonical_of_value? {levels : Nat} {d : Doc} {v : Value} (h : d.value? levels = some v) :
    v.Canonical ∧ v.depth ≤ levels := by
  -- the recursion is on the levels: a container hands one level less to what it holds
  induction levels generalizing d v with
  | zero => cases d <;> simp only [Doc.value?] at h <;> cases h <;> exact ⟨by constructor, le_rfl⟩
  | succ levels ih =>
    cases d with
    | array ds =>
      simp only [Doc.value?, Option.map_eq_some_iff] at h
      obtain ⟨vs, hvs, rfl⟩ := h
      have hin : ∀ v ∈ vs, v.Canonical ∧ v.depth ≤ levels := by
        intro v hv
        obtain ⟨d, -, hd⟩ := mem_of_itemValues? hvs hv
        exact ih hd
      exact ⟨.array fun v hv => (hin v hv).1,
        Nat.succ_le_succ ((depthItems_le_iff vs levels).2 fun v hv => (hin v hv).2)⟩
    | object ds =>
      simp only [Doc.value?, Option.map_eq_some_iff] at h
      obtain ⟨ms, hms, rfl⟩ := h
      have hin : ∀ m ∈ Members.ofList ms, m.2.Canonical ∧ m.2.depth ≤ levels := by
        intro m hm
        obtain ⟨d, -, hd⟩ := mem_of_memberValues? hms (Members.mem_of_mem_ofList hm)
        exact ih hd
      exact ⟨.object (Members.rising_ofList ms) fun m hm => (hin m hm).1,
        Nat.succ_le_succ ((depthMembers_le_iff _ levels).2 fun m hm => (hin m hm).2)⟩
    | _ => simp only [Doc.value?] at h; cases h <;> exact ⟨by constructor, Nat.zero_le _⟩

theorem canonical_of_decode {t : String} {v : Value} (h : decode Decoder.value t = .ok v) :
    v.Canonical ∧ v.depth ≤ maxDepth := by
  rw [decode] at h
  cases hv : (Doc.ofTokens (lex t)).1.value? maxDepth with
  | none => simp [Decoder.value, hv, bind, Except.bind] at h
  | some w =>
    simp only [Decoder.value, hv, Option.elim, bind, Except.bind] at h
    split at h
    · cases h
      exact canonical_of_value? hv
    · cases h

/-! ## Normalization -/

theorem canonical_textual {v : Value} (h : v.Canonical) : v.textual.Canonical := by
  induction h with
  | null => exact .null
  | bool b => exact .text _
  | number n => exact .text _
  | text s => exact .text s
  | array _ ih =>
    rw [textual, textualItems_eq_map]
    refine .array fun w hw => ?_
    obtain ⟨v, hv, rfl⟩ := List.mem_map.1 hw
    exact ih v hv
  | object hr _ ih =>
    rw [textual, textualMembers_eq_map]
    refine .object (List.pairwise_map.2 hr) fun w hw => ?_
    obtain ⟨m, hm, rfl⟩ := List.mem_map.1 hw
    exact ih m hm

/-- normalization leaves no number at all -/
theorem noReal_textual {v : Value} (h : v.Canonical) : v.textual.NoReal := by
  induction h with
  | null => exact .null
  | bool b => exact .text _
  | number n => exact .text _
  | text s => exact .text s
  | array _ ih =>
    rw [textual, textualItems_eq_map]
    refine .array fun w hw => ?_
    obtain ⟨v, hv, rfl⟩ := List.mem_map.1 hw
    exact ih v hv
  | object _ _ ih =>
    rw [textual, textualMembers_eq_map]
    refine .object fun w hw => ?_
    obtain ⟨m, hm, rfl⟩ := List.mem_map.1 hw
    exact ih m hm

end Value

end ReplicatedOrders.Json

/-
Normal forms: what normalization does to a value.

It goes through the value and changes leaves only. `null` stays, and every other leaf becomes a text: an integer its
canonical decimal numeral, from which it is read back, and a real number the digits of its nearest integer, without
point and exponent. Arrays and objects keep their length, their order and their keys, so the value nests as deep as
before, and a second normalization finds nothing to change.
- `Number.parse?_digits`: the numeral of an integer is read back as the integer.
- `Value.normalForm_textual`: the normal form, leaf by leaf.
- `Value.at?_textual`: what stands at a place of the normal form.
- `Value.depth_textual`, `Value.textual_textual`: depth and idempotence.
- `Value.textual_structure`: all of it.
-/
import ReplicatedOrders.Proofs.Json.Canonical
import ReplicatedOrders.Proofs.Json.Substitute

namespace ReplicatedOrders.Json

/-! ## Numerals -/

/-- the canonical decimal numeral of a number with the given sign: digits with no needless zero in front, and a minus -/
def IsNumeral (s : String) (negative : Bool) (n : Nat) : Prop :=
  ∃ ds, Leading ds ∧ Numeral.ofDigits 10 ds = n ∧ s.toList = Literal.signChars negative ++ ds.map Nat.digitChar

namespace Number

theorem isNumeral_whole (m : Whole) : IsNumeral (whole m).digits (m.val < 0) m.val.natAbs :=
  ⟨_, Leading.decimal _, Numeral.ofDigits_decimal _, toList_toString_int m.val⟩

theorem isNumeral_real (x : Binary64) : IsNumeral (real x).digits x.negative x.nearestWhole := by
  refine ⟨_, Leading.decimal _, Numeral.ofDigits_decimal _, ?_⟩
  rw [digits, Binary64.wholeText, String.toList_append, Numeral.toList_toString]
  cases x.negative <;> rfl

/-- the numeral of an integer is read back as the integer -/
theorem parse?_digits (m : Whole) : parse? (whole m).digits = some (.number (whole m)) := by
  have hlex := lexFrom_whole m Stops.nil
  rw [List.append_nil] at hlex
  rw [parse?_eq_some, digits, lex, hlex]
  exact ⟨rfl, rfl⟩

end Number

/-! ## The normal form -/

namespace Value

/-- the second value is the normal form of the first -/
inductive NormalForm : Value → Value → Prop where
  | null : NormalForm .null .null
  | bool (b : Bool) : NormalForm (.bool b) (.text (if b then "true" else "false"))
  | whole {m : Whole} {s : String} (h : IsNumeral s (m.val < 0) m.val.natAbs)
    (hread : parse? s = some (.number (.whole m))) : NormalForm (.number (.whole m)) (.text s)
  | real {x : Binary64} {s : String} (h : IsNumeral s x.negative x.nearestWhole) :
    NormalForm (.number (.real x)) (.text s)
  | text (s : String) : NormalForm (.text s) (.text s)
  | array {vs ws : List Value} (h : List.Forall₂ NormalForm vs ws) : NormalForm (.array vs) (.array ws)
  | object {ms ns : Members} (hkeys : ms.map Prod.fst = ns.map Prod.fst)
    (h : List.Forall₂ NormalForm (ms.map Prod.snd) (ns.map Prod.snd)) : NormalForm (.object ms) (.object ns)

theorem normalForm_textual (v : Value) : NormalForm v v.textual := by
  induction v using Value.induction with
  | null => exact .null
  | bool b => exact .bool b
  | number n =>
    cases n with
    | whole m => exact .whole (Number.isNumeral_whole m) (Number.parse?_digits m)
    | real x => exact .real (Number.isNumeral_real x)
  | text s => exact .text s
  | array vs ih =>
    rw [textual, textualItems_eq_map]
    exact .array (List.forall₂_map_right_iff.2 (List.forall₂_same.2 ih))
  | object ms ih =>
    rw [textual, textualMembers_eq_map]
    refine .object ?_ ?_
    · rw [List.map_map]
      rfl
    · rw [List.map_map, List.forall₂_map_left_iff, List.forall₂_map_right_iff]
      exact List.forall₂_same.2 ih

/-! ## Places -/

/-- the way from a container to something that it holds -/
inductive Step where
  | item (index : Nat)
  | member (key : String)

/-- what stands at the end of a path, if the path leads anywhere -/
def at? : List Step → Value → Option Value
  | [], v => some v
  | .item i :: path, .array vs => vs[i]?.bind (at? path)
  | .member key :: path, .object ms => (Members.get? ms key).bind (at? path)
  | _, _ => none

end Value

theorem Members.get?_textualMembers (ms : Members) (key : String) :
    Members.get? (Value.textualMembers ms) key = (ms.get? key).map Value.textual := by
  rw [Value.textualMembers_eq_map]
  induction ms with
  | nil => rfl
  | cons m ms ih =>
    obtain ⟨k, v⟩ := m
    simp only [Members.get?, List.map_cons, List.lookup_cons] at ih ⊢
    split
    · rfl
    · exact ih

namespace Value

/-- normalization leaves every path in place -/
theorem at?_textual (path : List Step) (v : Value) : v.textual.at? path = (v.at? path).map textual := by
  induction path generalizing v with
  | nil => rfl
  | cons step path ih =>
    cases v with
    | array vs =>
      cases step with
      | item i =>
        simp only [textual, at?, textualItems_eq_map, List.getElem?_map, Option.bind_map, Option.map_bind]
        exact congrArg (Option.bind vs[i]?) (funext ih)
      | member key => rfl
    | object ms =>
      cases step with
      | item i => rfl
      | member key =>
        simp only [textual, at?, Members.get?_textualMembers, Option.bind_map, Option.map_bind]
        exact congrArg (Option.bind (Members.get? ms key)) (funext ih)
    | null | bool | number | text => cases step <;> rfl

theorem textual_eq_null {v : Value} : v.textual = .null ↔ v = .null := by
  cases v <;> simp [textual]

/-! ## Depth and idempotence -/

theorem depth_textual (v : Value) : v.textual.depth = v.depth := by
  induction v using Value.induction with
  | null | bool | number | text => rfl
  | array vs ih =>
    have hitems : depth.depthItems (textualItems vs) = depth.depthItems vs := by
      induction vs with
      | nil => rfl
      | cons v vs ihs =>
        rw [textualItems, depth.depthItems, depth.depthItems, ih v List.mem_cons_self,
          ihs fun w hw => ih w (List.mem_cons_of_mem v hw)]
    rw [textual, depth, depth, hitems]
  | object ms ih =>
    have hmembers : depth.depthMembers (textualMembers ms) = depth.depthMembers ms := by
      induction ms with
      | nil => rfl
      | cons m ms ihs =>
        obtain ⟨k, v⟩ := m
        rw [textualMembers, depth.depthMembers, depth.depthMembers, ih (k, v) List.mem_cons_self,
          ihs fun n hn => ih n (List.mem_cons_of_mem _ hn)]
    rw [textual, depth, depth, hmembers]

theorem textual_textual (v : Value) : v.textual.textual = v.textual := by
  induction v using Value.induction with
  | null | bool | number | text => rfl
  | array vs ih =>
    rw [textual, textual, textualItems_eq_map, textualItems_eq_map, List.map_map]
    exact congrArg array (List.map_congr_left ih)
  | object ms ih =>
    rw [textual, textual, textualMembers_eq_map, textualMembers_eq_map, List.map_map]
    exact congrArg object (List.map_congr_left fun m hm => congrArg (Prod.mk m.1) (ih m hm))

/-- **Normalization keeps the structure and makes a text of every leaf but `null`.** -/
theorem textual_structure (v : Value) :
    NormalForm v v.textual ∧ (∀ path, v.textual.at? path = (v.at? path).map textual) ∧
      (∀ path, v.textual.at? path = some .null ↔ v.at? path = some .null) ∧ v.textual.depth = v.depth ∧
      v.textual.textual = v.textual ∧ ∀ ms : Members, textualMembers ms = ms.map fun m => (m.1, m.2.textual) := by
  refine ⟨normalForm_textual v, fun path => at?_textual path v, fun path => ?_, depth_textual v, textual_textual v,
    textualMembers_eq_map⟩
  rw [at?_textual, Option.map_eq_some_iff]
  constructor
  · rintro ⟨w, hw, hnull⟩
    rw [hw, textual_eq_null.1 hnull]
  · intro hv
    exact ⟨.null, hv, rfl⟩

end Value

end ReplicatedOrders.Json
